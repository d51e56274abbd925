import MiHarness.Library.Checked
import MiHarness.Library.Lines
import MiHarness.Library.Paging
import MiHarness.Library.Utf8
import MiHarness.Core.Contracts

/-!
# Reading files and artifacts

`read_file` gives a file page by page, by bytes or by lines, and `artifact_read` gives an artifact by
bytes.  A page by bytes is decoded on its own, so a page that ends inside a character puts replacement
characters for it; a page by lines is read in universal newline mode; a page of an artifact does not
say that more follows.  `pages_reassemble` says exactly when the pages of a UTF-8 file are its text.
-/

namespace MiHarness

open Library Library.Utf8

/-- What an executor of the builtin tools raises: an error of the harness, an `OSError` or another
exception. -/
inductive FileError where
  | harness (e : HarnessError)
  | os
  | other
deriving DecidableEq, Repr

structure ArtifactRef where
  artifactId : ArtifactId
  contentHash : Hash
  mimeType : String
  sizeBytes : Nat
deriving DecidableEq, Repr

/-! ## `read_file` -/

/-- What `read_file` finds outside: the checks of the path, before and under the guards of its
directories, the file, if the path is one, and the artifact store. -/
structure ReadHost where
  policy : Except FileError PUnit
  recheck : Except FileError PUnit
  file : Option Bytes
  digest : Bytes → Hash
  maxBytes : Nat
  putStream : Bytes → Except FileError ArtifactRef
  reference : ArtifactRef → Except FileError PUnit

structure ReadArgs where
  path : String
  offset : Option Nat := none
  limit : Option Nat := none
  startLine : Option Nat := none
  lineCount : Option Nat := none

inductive ReadRange where
  | lines (startLine nextLine : Nat)
  | bytes (offset nextOffset : Nat)
deriving DecidableEq, Repr

structure ReadResult where
  summary : List Char
  path : String
  content : List Char
  sha256 : Hash
  range : ReadRange
  artifactRefs : List ArtifactRef
  truncated : Bool

def fileNotFound : HarnessError := { code := .fileNotFound, message := "文件不存在", status := 404 }

def mixedRanges : HarnessError :=
  { code := .invalidReadRange, message := "字节范围与行范围不能混用", status := 422 }

def missingStart : HarnessError :=
  { code := .invalidReadRange, message := "按行读取必须提供 start_line", status := 422 }

def readLimit : HarnessError :=
  { code := .readLimit, message := "所选完整行超过 1 MiB，请缩小 line_count", status := 422 }

/-- The loop over the lines of the source: those selected, and whether there is one more. -/
def selectLines (startLine lineCount : Nat) :
    Nat → List (List Char) → List (List Char) → List (List Char) × Bool
  | _, [], selected => (selected, false)
  | lineNo, line :: source, selected =>
      if lineNo < startLine then selectLines startLine lineCount (lineNo + 1) source selected
      else if lineCount ≤ selected.length then (selected, true)
      else selectLines startLine lineCount (lineNo + 1) source (selected ++ [line])

/-- The lines of a file that is opened as text. -/
def textLines (bytes : Bytes) : List (List Char) :=
  keepLines (universalNewlines (decodeReplace bytes))

def readLines (bytes : Bytes) (startLine lineCount : Nat) :
    Except FileError (List Char × ReadRange × Bool) := do
  let (selected, hasMore) := selectLines startLine lineCount 1 (textLines bytes) []
  let text := selected.flatten
  require ((encode text).length ≤ 1048576) (.harness readLimit)
  .ok (text, .lines startLine (startLine + selected.length), hasMore)

def readBytes (bytes : Bytes) (offset limit : Nat) : List Char × ReadRange × Bool :=
  let chunk := (bytes.drop offset).take limit
  (decodeReplace chunk, .bytes offset (offset + chunk.length),
    decide (offset + chunk.length < bytes.length))

/-- The artifact of a file that is not too large for one. -/
def ReadHost.store (host : ReadHost) (bytes : Bytes) : Except FileError (List ArtifactRef) :=
  if bytes.length ≤ host.maxBytes then do
    let ref ← host.putStream bytes
    host.reference ref
    .ok [ref]
  else .ok []

def readFile (host : ReadHost) (args : ReadArgs) : Except FileError ReadResult := do
  host.policy
  let bytes ← orThrow host.file (.harness fileNotFound)
  let lineMode := args.startLine.isSome || args.lineCount.isSome
  require (¬(lineMode = true ∧ (args.offset.isSome || args.limit.isSome) = true))
    (.harness mixedRanges)
  require (¬(args.lineCount.isSome = true ∧ args.startLine = none)) (.harness missingStart)
  host.recheck
  let (text, range, truncated) ←
    if lineMode = true then readLines bytes (args.startLine.getD 1) (args.lineCount.getD 200)
    else .ok (readBytes bytes (args.offset.getD 0) (args.limit.getD 65536))
  let refs ← host.store bytes
  .ok { summary := text.take 16000, path := args.path, content := text, sha256 := host.digest bytes
        range := range, artifactRefs := refs, truncated := truncated }

def ReadRange.next : ReadRange → Nat
  | .lines _ nextLine => nextLine
  | .bytes _ nextOffset => nextOffset

/-- What a reader goes on by. -/
def ReadResult.page (r : ReadResult) : Page Char := ⟨r.content, r.range.next, r.truncated⟩

/-- The pages of a file by bytes. -/
def bytePages (host : ReadHost) (path : String) (limit offset : Nat) :
    Except FileError (Page Char) :=
  (readFile host { path := path, offset := some offset, limit := some limit }).map ReadResult.page

/-- The pages of a file by lines. -/
def linePages (host : ReadHost) (path : String) (lineCount startLine : Nat) :
    Except FileError (Page Char) :=
  (readFile host { path := path, startLine := some startLine, lineCount := some lineCount }).map
    ReadResult.page

/-! ## `artifact_read` -/

/-- The row of an artifact, whether it is of the workspace of the run, and its verified object. -/
structure ArtifactHost where
  row : Except FileError PUnit
  ownWorkspace : Bool
  object : Except FileError Bytes
  maxBytes : Nat

structure ArtifactPage where
  summary : List Char
  content : List Char
  nextOffset : Nat
  truncated : Bool := false

def artifactScope : HarnessError :=
  { code := .artifactScope, message := "产物不属于当前工作区", status := 403 }

def invalidRange : HarnessError :=
  { code := .invalidRange, message := "产物读取范围无效", status := 422 }

def readRange (host : ArtifactHost) (offset length : Nat) : Except FileError Bytes := do
  require (length ≤ host.maxBytes) (.harness invalidRange)
  let source ← host.object
  .ok ((source.drop offset).take length)

def artifactRead (host : ArtifactHost) (offset limit : Option Nat) :
    Except FileError ArtifactPage := do
  host.row
  require (host.ownWorkspace = true) (.harness artifactScope)
  let raw ← readRange host (offset.getD 0) (limit.getD 65536)
  .ok { summary := decodeReplace (raw.take 16000), content := decodeReplace raw
        nextOffset := offset.getD 0 + raw.length }

/-- The pages of an artifact. -/
def artifactPages (host : ArtifactHost) (limit offset : Nat) : Except FileError (Page Char) :=
  (artifactRead host (some offset) (some limit)).map fun r => ⟨r.content, r.nextOffset, r.truncated⟩

/-! ## Pages by bytes -/

variable {host : ReadHost} {path : String} {bytes : Bytes} {limit lineCount : Nat}

/-- The checks of the path pass, it is a file, and its artifact is stored or left out. -/
structure ReadHost.Serves (host : ReadHost) (bytes : Bytes) : Prop where
  policy : host.policy = .ok ⟨⟩
  recheck : host.recheck = .ok ⟨⟩
  file : host.file = some bytes
  stored : ∃ refs, host.store bytes = .ok refs

theorem bytePages_eq (serves : host.Serves bytes) (offset : Nat) :
    bytePages host path limit offset = .ok
      { content := decodeReplace ((bytes.drop offset).take limit)
        next := offset + ((bytes.drop offset).take limit).length
        truncated := decide (offset + ((bytes.drop offset).take limit).length < bytes.length) } := by
  obtain ⟨refs, stored⟩ := serves.stored
  rw [bytePages, readFile, serves.policy, ok_bind, serves.file, orThrow, ok_bind]
  dsimp only
  rw [require_pos _ (fun h => Bool.false_ne_true h.1), ok_bind,
    require_pos _ (fun h => Bool.false_ne_true h.1), ok_bind, serves.recheck, ok_bind,
    if_neg (show ¬((none : Option Nat).isSome || (none : Option Nat).isSome) = true from
      Bool.false_ne_true), ok_bind, stored]
  rfl

theorem linePages_eq (serves : host.Serves bytes) (startLine : Nat) :
    linePages host path lineCount startLine = (readLines bytes startLine lineCount).map fun r =>
      ⟨r.1, r.2.1.next, r.2.2⟩ := by
  obtain ⟨refs, stored⟩ := serves.stored
  rw [linePages, readFile, serves.policy, ok_bind, serves.file, orThrow, ok_bind]
  dsimp only
  rw [require_pos _ (fun h => Bool.false_ne_true h.2), ok_bind,
    require_pos _ (fun h => by cases h.2), ok_bind, serves.recheck, ok_bind,
    if_pos (show ((some startLine).isSome || (some lineCount).isSome) = true from rfl), stored]
  simp only [Option.getD_some]
  cases readLines bytes startLine lineCount with
  | error e => rfl
  | ok r => rfl

/-! ## Pages by bytes -/

/-- A page by bytes. -/
def bytePage (bytes : Bytes) (limit p : Nat) : Page Char where
  content := decodeReplace ((bytes.drop p).take limit)
  next := p + ((bytes.drop p).take limit).length
  truncated := decide (p + ((bytes.drop p).take limit).length < bytes.length)

/-- A truncated page is full, and behind it is what the next one starts with. -/
theorem bytePage_truncated {p : Nat} (truncated : (bytePage bytes limit p).truncated = true) :
    (bytePage bytes limit p).next = p + limit ∧
      bytes.drop p = (bytes.drop p).take limit ++ bytes.drop (p + limit) := by
  have more : p + ((bytes.drop p).take limit).length < bytes.length := of_decide_eq_true truncated
  rw [List.length_take, List.length_drop] at more
  refine ⟨?_, ?_⟩
  · show p + ((bytes.drop p).take limit).length = p + limit
    rw [List.length_take, List.length_drop]
    omega
  · rw [← List.drop_drop, List.take_append_drop]

/-- A page that is not truncated is what is left. -/
theorem bytePage_last {p : Nat} (last : (bytePage bytes limit p).truncated = false) :
    (bytes.drop p).take limit = bytes.drop p ∧ bytes.drop (p + limit) = [] := by
  have all : ¬p + ((bytes.drop p).take limit).length < bytes.length := of_decide_eq_false last
  rw [List.length_take, List.length_drop] at all
  exact ⟨List.take_of_length_le (by rw [List.length_drop]; omega),
    List.drop_eq_nil_of_le (by omega)⟩

variable {page : Nat → Except FileError (Page Char)} {stop p : Nat} {pages : List (Page Char)}

/-- What is left of a file is read in at least as many characters as it has. -/
theorem length_le_contents (eq : ∀ p, page p = .ok (bytePage bytes limit p))
    (reads : Reads page stop p pages) (rest : Rest (bytes.drop p)) :
    (decodeReplace (bytes.drop p)).length ≤ (contents pages).length := by
  induction reads with
  | @last p r found last _ =>
      cases (eq p).symm.trans found
      have whole := (bytePage_last last).1
      show _ ≤ ((bytePage bytes limit p).content ++ []).length
      rw [List.append_nil, bytePage, whole]
  | @more p r rs found truncated _ _ ih =>
      cases (eq p).symm.trans found
      obtain ⟨next, split⟩ := bytePage_truncated truncated
      rw [split] at rest ⊢
      obtain ⟨rest', parts⟩ := rest.cut
      rw [next] at ih
      have later := ih rest'
      show _ ≤ ((bytePage bytes limit p).content ++ contents rs).length
      rw [List.length_append]
      exact parts.trans (Nat.add_le_add_left later _)

/-- From a position between two characters, the pages are the text that is left if and only if each of
them starts between two characters. -/
theorem contents_bytes (eq : ∀ p, page p = .ok (bytePage bytes limit p))
    (reads : Reads page stop p pages) {text : List Char} (here : bytes.drop p = encode text) :
    contents pages = text ↔ ∀ k, Between (bytes.drop (p + k * limit)) := by
  induction reads generalizing text with
  | @last p r found last _ =>
      cases (eq p).symm.trans found
      obtain ⟨whole, ended⟩ := bytePage_last last
      have content : contents [bytePage bytes limit p] = text := by
        show (bytePage bytes limit p).content ++ [] = text
        rw [List.append_nil, bytePage, whole, here, decodeReplace_encode]
      refine iff_of_true content fun k => ?_
      cases k with
      | zero =>
          rw [Nat.zero_mul, Nat.add_zero, here]
          exact between_encode text
      | succ k =>
          rw [Nat.succ_mul, Nat.add_comm (k * limit), ← Nat.add_assoc, ← List.drop_drop, ended,
            List.drop_nil]
          exact fun _ h => by cases h
  | @more p r rs found truncated _ reads ih =>
      cases (eq p).symm.trans found
      obtain ⟨next, split⟩ := bytePage_truncated truncated
      rw [next] at ih reads
      have cut := here.symm.trans split
      by_cases between : Between (bytes.drop (p + limit))
      · obtain ⟨a, b, rfl, first, second⟩ := split_of_between cut between
        have content : contents (bytePage bytes limit p :: rs) = a ++ contents rs := by
          show (bytePage bytes limit p).content ++ contents rs = _
          rw [bytePage, first, decodeReplace_encode]
        rw [content, List.append_cancel_left_eq, ih second]
        refine ⟨fun all k => ?_, fun all k => ?_⟩
        · cases k with
          | zero =>
              rw [Nat.zero_mul, Nat.add_zero, here]
              exact between_encode _
          | succ k =>
              have later := all k
              rwa [Nat.add_assoc, Nat.add_comm limit, ← Nat.succ_mul] at later
        · have later := all (k + 1)
          rwa [Nat.succ_mul, Nat.add_comm (k * limit), ← Nat.add_assoc] at later
      · refine iff_of_false (fun same => ?_) fun all => between ?_
        · have longer := length_lt_of_cut cut between
          have rest : Rest (bytes.drop (p + limit)) := by
            have whole := rest_encode text
            rw [cut] at whole
            exact whole.cut.1
          have later := length_le_contents eq reads rest
          have total : (contents (bytePage bytes limit p :: rs)).length =
              (bytePage bytes limit p).content.length + (contents rs).length := List.length_append
          rw [same] at total
          have content : (bytePage bytes limit p).content.length =
              (decodeReplace ((bytes.drop p).take limit)).length := rfl
          omega
        · have one := all 1
          rwa [Nat.one_mul] at one

/-! ## Pages by lines -/

theorem selectLines_started {startLine lineNo : Nat} {source selected : List (List Char)}
    (started : startLine ≤ lineNo) (room : selected.length ≤ lineCount) :
    selectLines startLine lineCount lineNo source selected =
      (selected ++ source.take (lineCount - selected.length),
        decide (lineCount - selected.length < source.length)) := by
  induction source generalizing lineNo selected with
  | nil => simp [selectLines]
  | cons line source ih =>
      rw [selectLines, if_neg (Nat.not_lt.mpr started)]
      by_cases full : lineCount ≤ selected.length
      · rw [if_pos full, Nat.sub_eq_zero_of_le full, List.take_zero, List.append_nil]
        rfl
      · have longer : (selected ++ [line]).length = selected.length + 1 := by simp
        rw [if_neg full, ih (by omega) (by omega), longer]
        obtain ⟨n, hn⟩ : ∃ n, lineCount - selected.length = n + 1 :=
          ⟨lineCount - selected.length - 1, by omega⟩
        rw [hn, List.take_succ_cons, show lineCount - (selected.length + 1) = n by omega]
        simp

theorem selectLines_skip {startLine lineNo : Nat} {source : List (List Char)}
    (before : lineNo ≤ startLine) : selectLines startLine lineCount lineNo source [] =
      ((source.drop (startLine - lineNo)).take lineCount,
        decide (lineCount < (source.drop (startLine - lineNo)).length)) := by
  induction source generalizing lineNo with
  | nil => simp [selectLines]
  | cons line source ih =>
      by_cases here : lineNo < startLine
      · obtain ⟨n, hn⟩ : ∃ n, startLine - lineNo = n + 1 := ⟨startLine - lineNo - 1, by omega⟩
        rw [selectLines, if_pos here, ih here, hn, List.drop_succ_cons,
          show startLine - (lineNo + 1) = n by omega]
      · rw [selectLines_started (Nat.not_lt.mp here) (Nat.zero_le _),
          Nat.sub_eq_zero_of_le (Nat.not_lt.mp here)]
        simp

/-- A page by lines, the first `p` lines being read. -/
def linePage (lines : List (List Char)) (lineCount p : Nat) : Page Char where
  content := ((lines.drop p).take lineCount).flatten
  next := p + 1 + ((lines.drop p).take lineCount).length
  truncated := decide (lineCount < (lines.drop p).length)

/-- A page that is not refused for its size. -/
def Fits (page : Page Char) : Prop := (encode page.content).length ≤ 1048576

instance : DecidablePred Fits := fun _ => inferInstanceAs (Decidable (_ ≤ _))

theorem linePages_ok (serves : host.Serves bytes) {p : Nat} {r : Page Char} :
    linePages host path lineCount (p + 1) = .ok r ↔
      r = linePage (textLines bytes) lineCount p ∧ Fits (linePage (textLines bytes) lineCount p) := by
  rw [linePages_eq serves, readLines, selectLines_skip (Nat.le_add_left ..)]
  dsimp only
  rw [Nat.add_sub_cancel]
  by_cases fits : (encode (((textLines bytes).drop p).take lineCount).flatten).length ≤ 1048576
  · rw [require_pos _ fits, ok_bind]
    exact ⟨fun found => ⟨(Except.ok.inj found).symm, fits⟩, fun h => congrArg Except.ok h.1.symm⟩
  · rw [require_neg _ fits]
    exact iff_of_false (fun found => by cases found) fun h => fits h.2

/-- The pages behind some lines are the lines that are left, and none is refused. -/
theorem contents_lines (serves : host.Serves bytes) {start : Nat}
    (reads : Reads (linePages host path lineCount) stop start pages) {p : Nat} (at' : start = p + 1) :
    contents pages = ((textLines bytes).drop p).flatten ∧
      ∀ k, Fits (linePage (textLines bytes) lineCount (p + k * lineCount)) := by
  induction reads generalizing p with
  | @last start r found last _ =>
      subst at'
      obtain ⟨rfl, fits⟩ := (linePages_ok serves).mp found
      have all : ¬lineCount < ((textLines bytes).drop p).length := of_decide_eq_false last
      have whole : ((textLines bytes).drop p).take lineCount = (textLines bytes).drop p :=
        List.take_of_length_le (Nat.not_lt.mp all)
      refine ⟨?_, fun k => ?_⟩
      · show (linePage (textLines bytes) lineCount p).content ++ [] = _
        rw [List.append_nil, linePage, whole]
      · cases k with
        | zero => rwa [Nat.zero_mul, Nat.add_zero]
        | succ k =>
            have ended : (textLines bytes).drop (p + (k + 1) * lineCount) = [] := by
              refine List.drop_eq_nil_of_le ?_
              rw [List.length_drop] at all
              have one : lineCount ≤ (k + 1) * lineCount := Nat.le_mul_of_pos_left _ k.succ_pos
              omega
            rw [Fits, linePage, ended, List.take_nil]
            exact Nat.zero_le _
  | @more start r rs found truncated _ _ ih =>
      subst at'
      obtain ⟨rfl, fits⟩ := (linePages_ok serves).mp found
      have more : lineCount < ((textLines bytes).drop p).length := of_decide_eq_true truncated
      have next : (linePage (textLines bytes) lineCount p).next = p + lineCount + 1 := by
        show p + 1 + (((textLines bytes).drop p).take lineCount).length = _
        rw [List.length_take_of_le (Nat.le_of_lt more)]
        omega
      obtain ⟨later, fit⟩ := ih next
      refine ⟨?_, fun k => ?_⟩
      · show (linePage (textLines bytes) lineCount p).content ++ contents rs = _
        rw [later, linePage, ← List.flatten_append, ← List.drop_drop, List.take_append_drop]
      · cases k with
        | zero => rwa [Nat.zero_mul, Nat.add_zero]
        | succ k =>
            have one := fit k
            rwa [Nat.add_assoc, Nat.add_comm lineCount, ← Nat.succ_mul] at one

/-- Pages that are not refused are read to the end. -/
theorem lines_read (serves : host.Serves bytes) (path : String) (some : 0 < lineCount)
    (fits : ∀ k, Fits (linePage (textLines bytes) lineCount (k * lineCount))) :
    ∃ pages, Reads (linePages host path lineCount) ((textLines bytes).length + 1) 1 pages := by
  refine Reads.total (fun start => ∃ k, start = k * lineCount + 1 ∧
    k * lineCount ≤ (textLines bytes).length) ?_ ⟨0, by omega⟩
  rintro _ ⟨k, rfl, bound⟩
  refine ⟨_, (linePages_ok serves).mpr ⟨rfl, fits k⟩, fun last => ?_, fun truncated => ?_⟩
  · have all : ¬lineCount < ((textLines bytes).drop (k * lineCount)).length := of_decide_eq_false last
    show k * lineCount + 1 + (((textLines bytes).drop (k * lineCount)).take lineCount).length = _
    rw [List.take_of_length_le (Nat.not_lt.mp all), List.length_drop]
    omega
  · have more : lineCount < ((textLines bytes).drop (k * lineCount)).length :=
      of_decide_eq_true truncated
    have next : (linePage (textLines bytes) lineCount (k * lineCount)).next =
        (k + 1) * lineCount + 1 := by
      show k * lineCount + 1 + (((textLines bytes).drop (k * lineCount)).take lineCount).length = _
      rw [List.length_take_of_le (Nat.le_of_lt more), Nat.succ_mul]
      omega
    rw [List.length_drop] at more
    have later : (k + 1) * lineCount ≤ (textLines bytes).length := by
      rw [Nat.succ_mul]
      omega
    rw [next]
    exact ⟨by rw [Nat.succ_mul]; omega, by omega, k + 1, rfl, later⟩

theorem bytes_read (serves : host.Serves bytes) (path : String) (some : 0 < limit) :
    ∃ pages, Reads (bytePages host path limit) bytes.length 0 pages := by
  refine Reads.total (· ≤ bytes.length) ?_ (Nat.zero_le _)
  intro p inside
  refine ⟨_, bytePages_eq serves p, fun last => ?_, fun truncated => ?_⟩
  · obtain ⟨whole, -⟩ : (bytes.drop p).take limit = bytes.drop p ∧ _ := bytePage_last last
    show p + ((bytes.drop p).take limit).length = _
    rw [whole, List.length_drop]
    omega
  · have next : p + ((bytes.drop p).take limit).length = p + limit :=
      (bytePage_truncated truncated).1
    have more : p + ((bytes.drop p).take limit).length < bytes.length := of_decide_eq_true truncated
    exact ⟨by dsimp only; omega, by dsimp only; omega, by dsimp only; omega⟩

/-! ## The pages and the text -/

/-- The reads of an artifact pass their checks. -/
structure ArtifactHost.Serves (host : ArtifactHost) (bytes : Bytes) : Prop where
  row : host.row = .ok ⟨⟩
  ownWorkspace : host.ownWorkspace = true
  object : host.object = .ok bytes

theorem artifactPages_eq {host : ArtifactHost} (serves : host.Serves bytes)
    (small : limit ≤ host.maxBytes) (offset : Nat) : artifactPages host limit offset =
      .ok { content := decodeReplace ((bytes.drop offset).take limit)
            next := offset + ((bytes.drop offset).take limit).length, truncated := false } := by
  rw [artifactPages, artifactRead, serves.row, ok_bind, require_pos _ serves.ownWorkspace, ok_bind,
    readRange]
  simp only [Option.getD_some]
  rw [require_pos _ small, ok_bind, serves.object]
  rfl

/-- The pages of a UTF-8 file are its text: by bytes if and only if none of them starts inside a
character, by lines if and only if the text has no carriage return and no page is refused for its size,
and those of an artifact if and only if it has one page. -/
theorem pages_reassemble (host : ReadHost) (path : String) (artifact : ArtifactHost)
    (text : List Char) (serves : host.Serves (encode text)) (stored : artifact.Serves (encode text)) :
    (∀ limit, 0 < limit → (Reassembles (bytePages host path limit) 0 (encode text).length text ↔
      ∀ k, Between ((encode text).drop (k * limit)))) ∧
    (∀ lineCount, 0 < lineCount → (Reassembles (linePages host path lineCount) 1
        ((textLines (encode text)).length + 1) text ↔ '\r' ∉ text ∧
      ∀ k, Fits (linePage (keepLines text) lineCount (k * lineCount)))) ∧
    ∀ limit, limit ≤ artifact.maxBytes → (Reassembles (artifactPages artifact limit) 0
      (encode text).length text ↔ (encode text).length ≤ limit) := by
  refine ⟨fun limit some => ?_, fun lineCount some => ?_, fun limit small => ?_⟩
  · obtain ⟨pages, reads⟩ := bytes_read serves path some
    have exact' := contents_bytes (bytePages_eq serves) reads (rfl : (encode text).drop 0 = encode text)
    simp only [Nat.zero_add] at exact'
    refine ⟨fun ⟨pages', reads', same⟩ => ?_, fun between => ⟨pages, reads, exact'.mpr between⟩⟩
    have whole := (contents_bytes (bytePages_eq serves) reads' (rfl : (encode text).drop 0 = encode text)).mp same
    simpa only [Nat.zero_add] using whole
  · have lines : (textLines (encode text)).flatten = universalNewlines text := by
      rw [textLines, flatten_keepLines, decodeReplace_encode]
    have same : '\r' ∉ text → textLines (encode text) = keepLines text := fun none => by
      rw [textLines, decodeReplace_encode, universalNewlines_of_not_mem none]
    constructor
    · rintro ⟨pages, reads, whole⟩
      obtain ⟨content, fits⟩ := contents_lines serves reads (p := 0) rfl
      rw [List.drop_zero, lines] at content
      have none := universalNewlines_eq_self.mp (content.symm.trans whole)
      simp only [Nat.zero_add, same none] at fits
      exact ⟨none, fits⟩
    · rintro ⟨none, fits⟩
      rw [← same none] at fits
      obtain ⟨pages, reads⟩ := lines_read serves path some fits
      obtain ⟨content, -⟩ := contents_lines serves reads (p := 0) rfl
      rw [List.drop_zero, lines, universalNewlines_of_not_mem none] at content
      exact ⟨pages, reads, content⟩
  · have page := artifactPages_eq stored small 0
    rw [List.drop_zero, Nat.zero_add] at page
    constructor
    · rintro ⟨pages, reads, -⟩
      cases reads with
      | last found _ ended =>
          cases page.symm.trans found
          rw [← ended]
          exact List.length_take_le _ _
      | more found truncated _ _ =>
          cases page.symm.trans found
          cases truncated
    · intro one
      rw [List.take_of_length_le one, decodeReplace_encode] at page
      exact ⟨_, .last page rfl rfl, List.append_nil text⟩

/-! ## Two files -/

namespace Sample

/-- A file whose artifact is not stored. -/
def shelf (bytes : Bytes) : ReadHost where
  policy := .ok ⟨⟩
  recheck := .ok ⟨⟩
  file := some bytes
  digest _ := ""
  maxBytes := 0
  putStream _ := .error .os
  reference _ := .ok ⟨⟩

def shelved (bytes : Bytes) : ArtifactHost where
  row := .ok ⟨⟩
  ownWorkspace := true
  object := .ok bytes
  maxBytes := 134217728

theorem shelf_serves {bytes : Bytes} (some : 0 < bytes.length) : (shelf bytes).Serves bytes where
  policy := rfl
  recheck := rfl
  file := rfl
  stored := ⟨[], if_neg (Nat.not_le.mpr some)⟩

theorem shelved_serves (bytes : Bytes) : (shelved bytes).Serves bytes := ⟨rfl, rfl, rfl⟩

end Sample

/-- Two bytes at a time, no page ends inside the character of two bytes. -/
theorem pages_reassemble_even : Reassembles
    (bytePages (Sample.shelf (encode "naïve".toList)) "a.txt" 2) 0 6 "naïve".toList := by
  have iff := (pages_reassemble (Sample.shelf (encode "naïve".toList)) "a.txt"
    (Sample.shelved (encode "naïve".toList)) "naïve".toList (Sample.shelf_serves (by decide))
    (Sample.shelved_serves _)).1 2 (by decide)
  refine iff.mpr fun k => ?_
  by_cases inside : k < 3
  · have all : ∀ k < 3, Between ((encode "naïve".toList).drop (k * 2)) := by decide
    exact all k inside
  · rw [List.drop_eq_nil_of_le (Nat.le_trans (by decide : _ ≤ 3 * 2) (Nat.mul_le_mul_right 2
      (Nat.not_lt.mp inside)))]
    exact fun _ h => by cases h

/-- Byte by byte, a character of two bytes is lost; line by line a carriage return is; and of an
artifact all but the first page. -/
theorem pages_garbled :
    ¬Reassembles (bytePages (Sample.shelf (encode "é".toList)) "a.txt" 1) 0 2 "é".toList ∧
    ¬Reassembles (linePages (Sample.shelf (encode "a\r\n".toList)) "a.txt" 1) 1 2 "a\r\n".toList ∧
    ¬Reassembles (artifactPages (Sample.shelved (encode "ab".toList)) 1) 0 2 "ab".toList := by
  refine ⟨?_, ?_, ?_⟩
  · rintro ⟨pages, reads, same⟩
    have between := (contents_bytes (bytePages_eq (Sample.shelf_serves (by decide))) reads rfl).mp
      same 1
    exact between 0xa9 rfl (by decide)
  · rintro ⟨pages, reads, same⟩
    obtain ⟨content, -⟩ := contents_lines (Sample.shelf_serves (by decide)) reads (p := 0) rfl
    cases content.symm.trans same
  · rintro ⟨pages, reads, -⟩
    cases reads with
    | last found _ ended =>
        cases found
        cases ended
    | more found truncated _ _ =>
        cases found
        cases truncated

end MiHarness

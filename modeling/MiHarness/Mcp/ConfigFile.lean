import MiHarness.Core.Contracts
import MiHarness.Core.Json
import MiHarness.Library.Checked
import MiHarness.Library.System
import MiHarness.Library.Table
import MiHarness.Library.Utf8
import Mathlib.Data.Rat.Defs

/-!
# The file of the servers

`mcp.json` says what servers there are.  `McpConfigFileService` reads it, validates it and publishes it:
each server that is new or has changed gets a revision, and one record says which text is in effect.

A save notes what it is about to write in a journal, replaces the file and then publishes it.  A save and
a reload hold one lock, which a crash releases; an editor outside takes no lock, so it can write the file
between any two steps.
-/

namespace MiHarness

open Library Library.Utf8

/-! ## Errors -/

inductive McpFileCode where
  | mcpConfigPath | mcpConfigSize | mcpConfigEncoding | mcpJsonDuplicate | mcpJsonSyntax
  | mcpConfigSchema | secretInConfig | mcpFileMissing | mcpFileConflict
deriving DecidableEq, Repr

structure McpFileError where
  code : McpFileCode
  message : String
  status : Nat
deriving DecidableEq, Repr

/-- What is raised: an error of the harness, or another exception. -/
inductive McpFileFault where
  | harness (e : McpFileError)
  | other
deriving DecidableEq, Repr

/-- What `json.loads` raises with its hooks; a document that is too deep is a `RecursionError`. -/
inductive LoadsError where
  | malformed (line column : Nat)
  | duplicate
  | number
  | recursion
deriving DecidableEq, Repr

def LoadsError.fault : LoadsError → McpFileFault
  | .malformed line column => .harness
      { code := .mcpJsonSyntax, status := 422
        message := "JSON 语法错误：第 " ++ toString line ++ " 行第 " ++ toString column ++ " 列" }
  | .duplicate => .harness
      { code := .mcpJsonDuplicate, message := "JSON 包含重复字段", status := 422 }
  | .number => .harness
      { code := .mcpJsonSyntax, message := "JSON 不允许非有限数字", status := 422 }
  | .recursion => .other

/-! ## Profiles -/

inductive McpTransport where
  | stdio | streamableHttp | legacySse
deriving DecidableEq, Repr

inductive McpProtocolPolicy where
  | auto | modernOnly | legacyOnly
deriving DecidableEq, Repr

inductive McpScope where
  | call | run
deriving DecidableEq, Repr

/-- A profile, without its revision; `environmentRefs` are in the order of their names. -/
structure ConnectionProfile where
  serverId : String
  displayName : String
  transport : McpTransport
  command : Option String := none
  args : List String := []
  cwdRef : Option String := none
  endpoint : Option String := none
  environmentRefs : List (String × String) := []
  credentialRef : Option String := none
  oauthRef : Option String := none
  allowedCapabilities : List String := ["tools"]
  protocolPolicy : McpProtocolPolicy := .auto
  connectionScope : McpScope := .call
  connectTimeout : Rat := 10
  requestTimeout : Rat := 60
  maxTotalDuration : Rat := 180
  catalogTtl : Rat := 30
deriving DecidableEq

structure SplitUrl where
  scheme : String
  hostname : String
  username : String
  password : String
  fragment : String

/-- `text.startswith(head)`. -/
def beginsWith (head text : String) : Bool := head.toList.isPrefixOf text.toList

/-- `text.endswith(tail)`. -/
def endsWith (tail text : String) : Bool := tail.toList.isSuffixOf text.toList

/-- The text is there and is not empty. -/
def given (text : Option String) : Bool := text.any (· ≠ "")

def SplitUrl.absolute (url : SplitUrl) : Bool :=
  (url.scheme = "https" || url.scheme = "http") && url.hostname ≠ "" && url.username = "" &&
    url.password = "" && url.fragment = ""

/-- `valid_transport`; a text that `urlsplit` refuses is not valid. -/
def ConnectionProfile.validTransport (urlsplit : String → Option SplitUrl) (p : ConnectionProfile) :
    Bool :=
  p.credentialRef.all (beginsWith "credential:") && p.oauthRef.all (· = "oauth:" ++ p.serverId) &&
  p.environmentRefs.all (fun ref => ref.1 ≠ "" && !ref.1.toList.contains '=' &&
    !ref.1.toList.contains '\x00' && beginsWith "credential:" ref.2) &&
  (match p.transport with
    | .stdio => given p.command && !given p.endpoint
    | transport => (urlsplit (p.endpoint.getD "")).any SplitUrl.absolute &&
        !given p.command && p.args.isEmpty && p.environmentRefs.isEmpty && !given p.cwdRef &&
        (transport ≠ .legacySse || p.protocolPolicy = .legacyOnly)) &&
  p.allowedCapabilities.all (["tools", "resources", "prompts", "elicitation"].contains ·)

/-! ## Validation -/

/-- `bool(value)`. -/
def JsonData.truthy : JsonData → Bool
  | .null => false
  | .bool b => b
  | .int n => n ≠ 0
  | .float x => x.text ≠ "0.0" && x.text ≠ "-0.0"
  | .string s => s ≠ ""
  | .array items => !items.isEmpty
  | .object fields => !fields.isEmpty

def JsonData.isNull : JsonData → Bool
  | .null => true
  | _ => false

/-- A text that starts with `credential:`. -/
def JsonData.credential : JsonData → Bool
  | .string s => beginsWith "credential:" s
  | _ => false

/-- No object has two fields of one name. -/
inductive JsonData.Distinct : JsonData → Prop
  | null : Distinct .null
  | bool (b : Bool) : Distinct (.bool b)
  | int (n : Int) : Distinct (.int n)
  | float (x : FloatText) : Distinct (.float x)
  | string (s : String) : Distinct (.string s)
  | array (items : List JsonData) : (∀ x ∈ items, x.Distinct) → Distinct (.array items)
  | object (fields : List (String × JsonData)) : (fields.map Prod.fst).Nodup →
      (∀ f ∈ fields, f.2.Distinct) → Distinct (.object fields)

/-- A server of the file. -/
structure McpEntry where
  enabled : Bool
  profile : ConnectionProfile

/-- The digest of a text, and what the service has of `json`, `re`, `urllib` and of the validation of the
types of the fields. -/
structure McpFileHost where
  digest : List Char → Hash
  /-- `json.loads` with its hooks. -/
  loads : List Char → Except LoadsError JsonData
  /-- The hook refuses an object with two fields of one name. -/
  distinct : ∀ text data, loads text = .ok data → data.Distinct
  /-- `SECRET_KEYS.search`. -/
  secretKey : String → Bool
  urlsplit : String → Option SplitUrl
  /-- `ConnectionProfile(server_id=identity, **value)`, up to `valid_transport`. -/
  fields : String → List (String × JsonData) → Option ConnectionProfile

def secretError (message : String) : McpFileFault :=
  .harness { code := .secretInConfig, message, status := 422 }

def schemaError (message : String) : McpFileFault :=
  .harness { code := .mcpConfigSchema, message, status := 422 }

def sizeError (message : String) (status : Nat) : McpFileError :=
  { code := .mcpConfigSize, message, status }

variable (host : McpFileHost)

mutual

/-- `assert_secret_refs`. -/
def McpFileHost.assertSecretRefs : JsonData → Except McpFileFault Unit
  | .object fields => assertSecretFields fields
  | .array items => assertSecretItems items
  | _ => .ok ()

def McpFileHost.assertSecretItems : List JsonData → Except McpFileFault Unit
  | [] => .ok ()
  | item :: items => do
      assertSecretRefs item
      assertSecretItems items

def McpFileHost.assertSecretFields : List (String × JsonData) → Except McpFileFault Unit
  | [] => .ok ()
  | (key, value) :: fields =>
      if key = "environment_refs" then
        match value with
        | .object references => do
            require (references.all (·.2.credential) = true)
              (secretError "进程环境只接受绑定到服务的 credential: 引用")
            assertSecretFields fields
        | _ => .error (secretError "进程环境只接受绑定到服务的 credential: 引用")
      else do
        require (key = "credential_ref" → value.isNull = true ∨ value.credential = true)
          (secretError "凭据字段必须使用 credential: 引用")
        require (host.secretKey key = true → endsWith "_ref" key = true ∨ endsWith "_refs" key = true ∨
            value.truthy = false)
          (secretError "普通配置仅接受凭据引用")
        assertSecretRefs value
        assertSecretFields fields

end

/-- A character of `[A-Za-z0-9_.-]`. -/
def identityChar (c : Char) : Bool :=
  ('A' ≤ c && c ≤ 'Z') || ('a' ≤ c && c ≤ 'z') || ('0' ≤ c && c ≤ '9') || ['_', '.', '-'].contains c

/-- `re.fullmatch(r"[A-Za-z0-9_.-]{1,160}", identity)`. -/
def validIdentity (identity : String) : Bool :=
  identity.toList.all identityChar && 1 ≤ identity.toList.length && identity.toList.length ≤ 160

/-- `entry.get("enabled", False)`, when it is a truth value. -/
def entryEnabled (fields : List (String × JsonData)) : Option Bool :=
  match fields.lookup "enabled" with
  | none => some false
  | some (.bool b) => some b
  | some _ => none

/-- The fields that the service sets itself. -/
def reservedFields : List String := ["id", "revision", "server_id", "config_revision"]

/-- The references of a server are bound to it. -/
def ConnectionProfile.bound (p : ConnectionProfile) (identity : String) : Bool :=
  (p.credentialRef.toList ++ p.environmentRefs.map Prod.snd).all
    (beginsWith ("credential:mcp-" ++ identity ++ ":"))

def McpFileHost.validateEntry (identity : String) (entry : JsonData) :
    Except McpFileFault McpEntry :=
  match entry with
  | .object fields => do
      require (validIdentity identity = true) (schemaError "服务 ID 或配置对象无效")
      let enabled ← orThrow (entryEnabled fields)
        (schemaError ("mcpServers." ++ identity ++ " 的 enabled 或版本字段无效"))
      require (fields.all (fun f => !reservedFields.contains f.1) = true)
        (schemaError ("mcpServers." ++ identity ++ " 的 enabled 或版本字段无效"))
      host.assertSecretRefs (.object (fields.filter (·.1 ≠ "enabled")))
      let profile ← orThrow (host.fields identity (fields.filter (·.1 ≠ "enabled")))
        (schemaError ("mcpServers." ++ identity ++ " 字段无效；仅支持凭据引用及已声明字段"))
      require (profile.validTransport host.urlsplit = true ∧ profile.bound identity = true)
        (schemaError ("mcpServers." ++ identity ++ " 字段无效；仅支持凭据引用及已声明字段"))
      return { enabled, profile }
  | _ => .error (schemaError "服务 ID 或配置对象无效")

def McpFileHost.validateEntries : List (String × JsonData) →
    Except McpFileFault (List (String × McpEntry))
  | [] => .ok []
  | (identity, entry) :: entries => do
      let server ← host.validateEntry identity entry
      let servers ← validateEntries entries
      return (identity, server) :: servers

/-- The servers of a document. -/
def documentServers : JsonData → Except McpFileFault (List (String × JsonData))
  | .object fields =>
      match fields.lookup "schema_version", fields.lookup "mcpServers" with
      | some (.int 1), some (.object servers) =>
          if fields.all (fun f => f.1 = "schema_version" || f.1 = "mcpServers") = true then .ok servers
          else .error (schemaError "需要 schema_version: 1 和 mcpServers 对象，禁止未知字段")
      | _, _ => .error (schemaError "需要 schema_version: 1 和 mcpServers 对象，禁止未知字段")
  | _ => .error (schemaError "需要 schema_version: 1 和 mcpServers 对象，禁止未知字段")

def McpFileHost.validate (text : List Char) : Except McpFileFault (List (String × McpEntry)) := do
  require ((encode text).length ≤ 1048576) (.harness (sizeError "MCP 配置超过 1 MiB" 413))
  let data ← (host.loads text).mapError LoadsError.fault
  let servers ← documentServers data
  require (servers.length ≤ 100) (.harness (sizeError "最多配置 100 个服务" 422))
  host.validateEntries servers

/-! ## The database -/

abbrev JournalId := Nat

/-- A row of `config/mcp`. -/
structure McpRow where
  profile : ConnectionProfile
  revision : Nat

/-- The record `mcp_file_state`. -/
structure McpFileRecord where
  revision : Nat
  effectiveHash : Hash
  enabled : List String
  serverIds : List String
  loadedAt : Time

inductive McpJournalState where
  | prepared | completed | supersededByDisk
deriving DecidableEq, Repr

structure McpJournal where
  hash : Hash
  previousHash : Option Hash
  state : McpJournalState
deriving DecidableEq, Repr

/-- What the service keeps in the database; `status` is the error of the latest load, if there has been
one. -/
structure McpFileStore where
  profiles : Table String McpRow
  current : Option McpFileRecord
  journals : Table JournalId McpJournal
  status : Option (Option McpFileError)

/-! ## The file -/

/-- What there is at the path: a link, a regular file, or nothing. -/
inductive McpDisk where
  | missing
  | link
  | file (bytes : Bytes)

def conflictError (message : String) : McpFileError :=
  { code := .mcpFileConflict, message, status := 412 }

def missingError : McpFileError :=
  { code := .mcpFileMissing, message := "配置文件不存在；保留最后有效配置", status := 404 }

def McpDisk.read : McpDisk → Except McpFileError (Option (List Char))
  | .link => .error
      { code := .mcpConfigPath, message := "MCP 配置路径不可经过链接或 reparse point", status := 403 }
  | .missing => .ok none
  | .file bytes =>
      if 1048576 < bytes.length then .error (sizeError "MCP 配置超过 1 MiB" 413)
      else
        match decodeStrict bytes with
        | some text => .ok (some text)
        | none => .error
            { code := .mcpConfigEncoding, message := "MCP 配置必须为 UTF-8", status := 422 }

/-! ## Publishing -/

/-- A server that is new or has changed gets a revision. -/
def publishProfile (profiles : Table String McpRow) (identity : String)
    (profile : ConnectionProfile) : Table String McpRow :=
  match profiles.get? identity with
  | some old =>
      if old.profile = profile then profiles
      else profiles.put identity { profile, revision := old.revision + 1 }
  | none => profiles.put identity { profile, revision := 1 }

def publishProfiles (profiles : Table String McpRow) :
    List (String × McpEntry) → Table String McpRow
  | [] => profiles
  | (identity, entry) :: servers =>
      publishProfiles (publishProfile profiles identity entry.profile) servers

/-- A journal that is still prepared is settled by what was found on the disk. -/
def McpJournal.settle (sourceHash : Hash) (journal : McpJournal) : McpJournal :=
  if journal.state = .prepared then
    { journal with
      state := if journal.hash = sourceHash then .completed else .supersededByDisk }
  else journal

def McpFileStore.effectiveHash (s : McpFileStore) : Option Hash :=
  s.current.map McpFileRecord.effectiveHash

/-- The journal of the save that publishes is completed. -/
def McpFileStore.complete (s : McpFileStore) (sourceHash : Hash) :
    Option JournalId → Table JournalId McpJournal
  | some identity =>
      s.journals.put identity { hash := sourceHash, previousHash := none, state := .completed }
  | none => s.journals

/-- The transaction of `_publish`, past its check of the file. -/
def McpFileHost.publishText (s : McpFileStore) (text : List Char) (servers : List (String × McpEntry))
    (journal : Option JournalId) (now : Time) : McpFileStore :=
  if s.effectiveHash = some (host.digest text) then s
  else
    { s with
      profiles := publishProfiles s.profiles servers
      current := some
        { revision := (s.current.map McpFileRecord.revision).getD 0 + 1
          effectiveHash := host.digest text
          enabled := (servers.filter (·.2.enabled)).map Prod.fst
          serverIds := servers.map Prod.fst
          loadedAt := now }
      journals := (s.complete (host.digest text) journal).mapRows fun _ =>
        McpJournal.settle (host.digest text) }

/-- `_publish`. -/
def McpFileHost.publish (s : McpFileStore) (disk : McpDisk) (text : List Char)
    (servers : List (String × McpEntry)) (journal : Option JournalId) (now : Time) :
    Except McpFileError McpFileStore := do
  let found ← disk.read
  require (found = some text) (conflictError "配置文件正在变化，请重载；网页草稿已保留")
  return host.publishText s text servers journal now

/-! ## Steps -/

/-- How far a reload or a save has come that has the lock. -/
inductive McpHolder where
  /-- A reload is about to read the file. -/
  | loading
  /-- It has read and validated a text, and is about to publish it. -/
  | loaded (text : List Char) (servers : List (String × McpEntry))
  /-- It has published the text, and is about to say so. -/
  | reloaded (text : List Char)
  /-- It has caught an error, and is about to say so. -/
  | refused (e : McpFileError)
  /-- A save is about to compare the file with what it expects. -/
  | comparing (text : List Char) (servers : List (String × McpEntry)) (expected : Option Hash)
  /-- The file is the expected one, and the journal is about to be written. -/
  | expected (text : List Char) (servers : List (String × McpEntry)) (current : Option (List Char))
  /-- The journal is written; the file is about to be compared again, beside the temporary file. -/
  | prepared (text : List Char) (servers : List (String × McpEntry)) (current : Option (List Char))
      (journal : JournalId)
  /-- The file is about to be replaced. -/
  | compared (text : List Char) (servers : List (String × McpEntry)) (journal : JournalId)
  /-- The file is replaced, and is about to be published. -/
  | replaced (text : List Char) (servers : List (String × McpEntry)) (journal : JournalId)
  /-- The text is published, and the save is about to say so. -/
  | saved

structure McpFileWorld where
  disk : McpDisk
  store : McpFileStore
  holder : Option McpHolder

inductive McpFileAction where
  /-- An editor outside writes, replaces or removes the file. -/
  | edit (disk : McpDisk)
  /-- A reload gets the lock; the path was safe when it asked for it. -/
  | reload
  /-- `_safe_path` of a reload or a save raises, before it asks for the lock. -/
  | blocked
  | save (text : List Char) (expected : Option Hash)
  /-- Whoever has the lock takes the next step. -/
  | advance (fresh : JournalId) (now : Time)
  /-- A crash, or an exception of the operating system: the lock is free again. -/
  | stop

/-- The steps of `reload` and of `save`. -/
def McpFileHost.advance (w : McpFileWorld) (fresh : JournalId) (now : Time) :
    McpHolder → McpFileWorld
  | .loading =>
      match w.disk.read with
      | .error e => { w with holder := some (.refused e) }
      | .ok none => { w with holder := some (.refused missingError) }
      | .ok (some text) =>
          match host.validate text with
          | .ok servers => { w with holder := some (.loaded text servers) }
          | .error (.harness e) => { w with holder := some (.refused e) }
          | .error .other => { w with holder := none }
  | .loaded text servers =>
      match host.publish w.store w.disk text servers none now with
      | .ok store => { w with store, holder := some (.reloaded text) }
      | .error e => { w with holder := some (.refused e) }
  | .reloaded _ => { w with store := { w.store with status := some none }, holder := none }
  | .refused e => { w with store := { w.store with status := some (some e) }, holder := none }
  | .comparing text servers expected =>
      match w.disk.read with
      | .ok current =>
          if current.map host.digest = expected then
            { w with holder := some (.expected text servers current) }
          else { w with holder := none }
      | .error _ => { w with holder := none }
  | .expected text servers current =>
      { w with
        store := { w.store with
          journals := w.store.journals.put fresh
            { hash := host.digest text, previousHash := current.map host.digest
              state := .prepared } }
        holder := some (.prepared text servers current fresh) }
  | .prepared text servers current journal =>
      match w.disk.read with
      | .ok found =>
          if found = current then { w with holder := some (.compared text servers journal) }
          else { w with holder := none }
      | .error _ => { w with holder := none }
  | .compared text servers journal =>
      { w with disk := .file (encode text), holder := some (.replaced text servers journal) }
  | .replaced text servers journal =>
      match host.publish w.store w.disk text servers (some journal) now with
      | .ok store => { w with store, holder := some .saved }
      | .error _ => { w with holder := none }
  | .saved => { w with store := { w.store with status := some none }, holder := none }

/-- A reload and a save start when the lock is free; a save has validated its text by then. -/
def McpFileHost.next (w : McpFileWorld) : McpFileAction → Option McpFileWorld
  | .edit disk => some { w with disk }
  | .reload =>
      match w.holder with
      | none => some { w with holder := some .loading }
      | some _ => none
  | .blocked =>
      match w.disk with
      | .link => some w
      | _ => none
  | .save text expected =>
      match w.holder, host.validate text with
      | none, .ok servers => some { w with holder := some (.comparing text servers expected) }
      | _, _ => none
  | .advance fresh now => w.holder.map (host.advance w fresh now)
  | .stop => some { w with holder := none }

/-- Nothing is published yet; the rows and the file are whatever they are. -/
structure McpFileWorld.Start (w : McpFileWorld) : Prop where
  current : w.store.current = none
  holder : w.holder = none

def McpFileHost.system : System McpFileWorld McpFileAction :=
  .ofNext McpFileWorld.Start host.next

end MiHarness

import NexusAgent.Lib.CharTable
import NexusAgent.Lib.Json
import NexusAgent.Lib.Prog
import NexusAgent.Lib.Regex
import NexusAgent.Lib.Replace
import NexusAgent.Lib.Split
import NexusAgent.Llm.Response
import NexusAgent.Storage.Resolve

/-!
# Skill stores

`nexus/skills/store.py` and `path_segments` of `nexus/session/scope.py`. A skill is kept under the
folder of its scope, in memory in a bucket named by it, on disk as a `SKILL.md` file with a front
matter that is read back line by line.

* `InMemorySkillStore` keeps the record objects that callers hand to it, by their addresses.
* `FileSkillStore.run` are the calls on the files alone. `FileSkillStore.call` are they with the
  folders that every call makes on its way, and what raises where a folder stands in the place of a
  file or a file in that of a folder; `call_eq_run` says that they are the same where none does.

A file is named by its absolute path, as the operating system resolves it; there are no links. Left
out are names and ids that the file system refuses, for their length or their characters, and
counts of more than 4300 digits, which `int` does not read.
-/

open Lib

namespace Nexus

/-! ### Scopes -/

/-- `getattr(scope, key, None)`. -/
def SessionScope.getattr (scope : SessionScope) (key : String) : Option String :=
  if key = "tenant_id" then scope.tenantId
  else if key = "company_id" then scope.companyId
  else if key = "user_id" then scope.userId
  else none

/-- The fields of a scope in order. -/
def scopeKeyOrder : List String := ["tenant_id", "company_id", "user_id"]

/-- `SessionScope.path_segments`. -/
def SessionScope.pathSegments (scope : SessionScope) (keys : List String) : List String :=
  (if keys = [] then scopeKeyOrder else keys).filterMap fun key =>
    (truthy (scope.getattr key)).map (PyStr.replace "/" "_")

namespace Skills

/-! ### Skills -/

/-- Where a skill comes from. -/
inductive SkillSource
  | agentskills
  | learned
  | manual
  deriving DecidableEq, Repr

/-- The value of a source. -/
def SkillSource.value : SkillSource → String
  | .agentskills => "agentskills"
  | .learned => "learned"
  | .manual => "manual"

/-- The source of a value, if it is one. -/
def SkillSource.ofValue (value : String) : Option SkillSource :=
  [.agentskills, .learned, .manual].find? fun source => source.value = value

/-- `SkillRecord`, without the time of its last change. -/
structure SkillRecord where
  name : String
  trigger : String := ""
  content : String := ""
  source : SkillSource := .learned
  enabled : Bool := true
  useCount : ℤ := 0
  deriving DecidableEq, Repr

/-- The characters a normalized name is made of. -/
def nameChar (c : Char) : Bool := c.isLower || c.isDigit || c = '_' || c = '-'

/-- `_normalize_name`. -/
def normalizeName (table : CharTable) (name : String) : String :=
  let cleaned := PyStr.replace "/" "__" (PyStr.replace " " "_" (table.lower (PyStr.strip name)))
  let nameRe : Regex := .many (fun c => !nameChar c) 1 none false
  String.ofList ((nameRe.sub ['_'] cleaned.toList).take 200)

/-- `matches[:k]`. -/
def upTo {α : Type} (k : ℤ) (skills : List α) : List α :=
  skills.take (if 0 ≤ k then k else skills.length + k).toNat

/-- Whether a query, in lower case, is found in a skill. -/
def SkillRecord.matchesQuery (table : CharTable) (query : String) (skill : SkillRecord) : Bool :=
  query = "" || PyStr.Within query (table.lower (skill.trigger ++ " " ++ skill.content))

/-- The calls of a skill store, over what an upsert is handed. -/
inductive SkillOp (ρ : Type)
  | search (query : String) (k : ℤ)
  | upsert (skill : ρ)
  | list (includeDisabled : Bool)
  | delete (name : String)
  | disable (name : String)
  | get (name : String)
  deriving DecidableEq, Repr

/-! ### In memory -/

/-- The record objects by their addresses, and `_data`. -/
structure SkillMemory where
  records : ℕ → SkillRecord
  data : Dict String (Dict String ℕ) := []

/-- Edit a record object. -/
def SkillMemory.edit (m : SkillMemory) (address : ℕ) (f : SkillRecord → SkillRecord) : SkillMemory :=
  { m with records := Function.update m.records address (f (m.records address)) }

/-- `skill.use_count += 1`. -/
def SkillRecord.countUse (s : SkillRecord) : SkillRecord := { s with useCount := s.useCount + 1 }

namespace InMemorySkillStore

/-- `_bucket`. -/
def bucket (scope : SessionScope) : String :=
  let parts := scope.pathSegments []
  if parts = [] then "_global" else PyStr.join "/" parts

/-- The skills of a bucket. -/
def skills (m : SkillMemory) (scope : SessionScope) : Dict String ℕ :=
  (Dict.get? m.data (bucket scope)).getD []

/-- `list`. -/
def list (m : SkillMemory) (scope : SessionScope) (includeDisabled : Bool) : List ℕ :=
  ((skills m scope).map Prod.snd).filter fun address =>
    includeDisabled || (m.records address).enabled

/-- A call: the record objects it returns, and the memory after it. -/
def run (table : CharTable) (scope : SessionScope) (m : SkillMemory) :
    SkillOp ℕ → List ℕ × SkillMemory
  | .search query k =>
    let q := table.lower query
    let found := (list m scope false).filter fun address => (m.records address).matchesQuery table q
    (upTo k found, found.foldl (fun m address => m.edit address SkillRecord.countUse) m)
  | .upsert address =>
    let m := m.edit address fun s => { s with name := normalizeName table s.name }
    let skills := Dict.set (skills m scope) (m.records address).name address
    ([address], { m with data := Dict.set m.data (bucket scope) skills })
  | .list includeDisabled => (list m scope includeDisabled, m)
  | .delete name =>
    let skills := Dict.erase (skills m scope) (normalizeName table name)
    ([], if Dict.has m.data (bucket scope) then
      { m with data := Dict.set m.data (bucket scope) skills } else m)
  | .disable name =>
    match Dict.get? (skills m scope) (normalizeName table name) with
    | none => ([], m)
    | some address => ([], m.edit address fun s => { s with enabled := false })
  | .get name => ((Dict.get? (skills m scope) (normalizeName table name)).toList, m)

end InMemorySkillStore

/-! ### On disk -/

/-- The text files by their resolved paths. -/
abbrev Files : Type := Dict Path String

/-- `FileSkillStore`: the resolved path of its root. -/
structure FileSkillStore where
  root : Path
  scopeKeys : List String := scopeKeyOrder
  root_resolved : ∀ c ∈ root, c ≠ "" ∧ c ≠ "." ∧ c ≠ ".."

/-- The quotes that are taken off a value. -/
def isQuote (c : Char) : Bool := c = '"' || c = '\''

/-- A line of the front matter, read: a key and a value at the first colon. -/
def addLine (front : Dict String String) (line : List Char) : Dict String String :=
  match PyStr.cut [':'] line with
  | none => front
  | some (k, v) =>
    Dict.set front (String.ofList (PyStr.stripBy PyStr.isSpace k))
      (String.ofList (PyStr.stripBy isQuote (PyStr.stripBy PyStr.isSpace v)))

/-- `meta`: the keys and values of the front matter. -/
def frontMatter (front : List Char) : Dict String String :=
  (PyStr.splitlines (PyStr.stripBy PyStr.isSpace front)).foldl addLine []

/-- The record of a front matter and a body; nothing if the source or the count is not one. -/
def skillOf (table : CharTable) (folder : String) (front : Dict String String) (body : String) :
    Option SkillRecord := do
  let source ← SkillSource.ofValue ((Dict.get? front "source").getD "learned")
  let useCount ← PyStr.pyInt
    (PyStr.stripBy PyStr.isSpace ((Dict.get? front "use_count").getD "0").toList)
  return {
    name := (truthy (Dict.get? front "name")).getD folder
    trigger := (Dict.get? front "trigger").getD ""
    content := body
    source := source
    enabled := table.lower ((Dict.get? front "enabled").getD "true") ≠ "false"
    useCount := useCount }

/-- `_parse` of a file in a folder of this name; nothing if it raises. -/
def parse (table : CharTable) (folder : String) (file : String) : Option SkillRecord :=
  let text := PyStr.universalNewlines file.toList
  match PyStr.splitMax "---".toList 2 text with
  | [before, front, body] =>
    -- a text that starts with the fence has nothing before it
    if before = [] then
      skillOf table folder (frontMatter front) (String.ofList (PyStr.stripBy PyStr.isSpace body))
    else skillOf table folder [] (String.ofList text)
  | _ => skillOf table folder [] (String.ofList text)

/-- The front matter `_write` writes, between the fences. -/
def writtenFront (skill : SkillRecord) : String :=
  "\nname: " ++ skill.name ++ "\ntrigger: " ++ (Json.str skill.trigger).dumps ++ "\nsource: " ++
    skill.source.value ++ "\nenabled: " ++ (if skill.enabled then "true" else "false") ++
    "\nuse_count: " ++ toString skill.useCount ++ "\n"

/-- The text `_write` writes. -/
def written (skill : SkillRecord) : String :=
  "---" ++ writtenFront skill ++ "---\n\n" ++ PyStr.strip skill.content ++ "\n"

namespace FileSkillStore

variable (table : CharTable) (store : FileSkillStore) (scope : SessionScope)

/-- `_dir`. -/
def dir : Path :=
  let segments := scope.pathSegments store.scopeKeys
  if segments = [] then store.root.join "_global" else segments.foldl Path.join store.root

/-- The folder of a skill. -/
def skillFolder (name : String) : Path := (store.dir scope).join (normalizeName table name)

/-- `_skill_path`. -/
def skillPath (name : String) : Path := (store.skillFolder table scope name).join "SKILL.md"

/-- The files `_dir(scope).glob("*/SKILL.md")` finds, with the names of their folders. -/
def globbed (files : Files) : List (String × String) :=
  (Dict.items files).filterMap fun f =>
    match f.1.reverse with
    | file :: folder :: base =>
      if file = "SKILL.md" ∧ base.reverse = (store.dir scope).resolve then some (folder, f.2) else none
    | _ => none

/-- `list`; nothing if a file is not read. -/
def list (files : Files) (includeDisabled : Bool) : Option (List SkillRecord) :=
  ((store.globbed scope files).mapM fun f => parse table f.1 f.2).map fun skills =>
    skills.filter fun s => includeDisabled || s.enabled

/-- `get`; nothing inside if there is no file, nothing if it is not read. -/
def get (files : Files) (name : String) : Option (Option SkillRecord) :=
  match Dict.get? files (store.skillPath table scope name).resolve with
  | none => some none
  | some file => (parse table (store.skillFolder table scope name).name file).map some

/-- `_write` at the path of a skill. -/
def write (files : Files) (skill : SkillRecord) : Files :=
  Dict.set files (store.skillPath table scope skill.name).resolve (written skill)

/-- `upsert`: the skill as it is stored and the files after it. -/
def upsert (files : Files) (skill : SkillRecord) : SkillRecord × Files :=
  let skill := { skill with name := normalizeName table skill.name }
  (skill, store.write table scope files skill)

/-- A call on the files alone: what it returns, nothing if it raises, and the files after it. -/
def run (files : Files) : SkillOp SkillRecord → Option (List SkillRecord) × Files
  | .search query k =>
    let q := table.lower query
    match store.list table scope files false with
    | none => (none, files)
    | some skills =>
      let found := (skills.filter fun s => s.matchesQuery table q).map fun s =>
        { s with useCount := s.useCount + 1 }
      (some (upTo k found), found.foldl (store.write table scope) files)
  | .upsert skill => (some [(store.upsert table scope files skill).1],
      (store.upsert table scope files skill).2)
  | .list includeDisabled => (store.list table scope files includeDisabled, files)
  | .delete name => (some [], Dict.erase files (store.skillPath table scope name).resolve)
  | .disable name =>
    match store.get table scope files name with
    | none => (none, files)
    | some none => (some [], files)
    | some (some skill) =>
      (some [], (store.upsert table scope files { skill with enabled := false }).2)
  | .get name => ((store.get table scope files name).map Option.toList, files)

end FileSkillStore

/-! ### On disk, with the folders -/

/-- The files, and the folders that were made, by their resolved paths. -/
structure Tree where
  files : Files := []
  folders : List Path := []
  deriving DecidableEq

/-- Calls on the file system. What they raise is left out. -/
abbrev FileProg (α : Type) : Type := Prog Tree Unit α

/-- The folders on the way to a path, the last one included, as they are resolved. -/
def trail (p : Path) : List Path := p.inits.map Path.resolve

namespace Tree

/-- Paths are equal when they compare as equal. -/
local instance lawfulBEq_path : LawfulBEq Path := inferInstance

/-- `mkdir(exist_ok=True)`. -/
def mkdir (p : Path) : FileProg Unit := do
  let t ← Prog.get
  if Dict.has t.files p then Prog.throw ()
  else Prog.modify fun t => { t with folders := List.insert p t.folders }

/-- `mkdir(parents=True, exist_ok=True)`, by the trail of the path. -/
def mkdirs : List Path → FileProg Unit
  | [] => pure ()
  | p :: ps => do
    mkdir p
    mkdirs ps

/-- `read_text`, if the path exists. -/
def readText (p : Path) : FileProg (Option String) := do
  let t ← Prog.get
  if p ∈ t.folders then Prog.throw () else return Dict.get? t.files p

/-- `write_text`. -/
def writeText (p : Path) (text : String) : FileProg Unit := do
  let t ← Prog.get
  if p ∈ t.folders then Prog.throw ()
  else Prog.modify fun t => { t with files := Dict.set t.files p text }

/-- Nothing is in the folder. -/
def isEmpty (t : Tree) (p : Path) : Bool :=
  (t.files.map Prod.fst ++ t.folders).all fun q => !(p.isPrefixOf q && p.length < q.length)

/-- `rmdir`, whose error is caught. -/
def rmdir (p : Path) (t : Tree) : Tree :=
  if t.isEmpty p then { t with folders := t.folders.filter (· ≠ p) } else t

/-- `unlink`, if the path exists, and then `rmdir` of the folder. -/
def unlink (p folder : Path) : FileProg Unit := do
  let t ← Prog.get
  if p ∈ t.folders then Prog.throw ()
  else if Dict.has t.files p then
    Prog.modify fun t => Tree.rmdir folder { t with files := Dict.erase t.files p }
  else pure ()

end Tree

namespace FileSkillStore

variable (table : CharTable) (store : FileSkillStore) (scope : SessionScope)

/-- `_dir`, which makes the folder. -/
def makeDir : FileProg Unit := Tree.mkdirs (trail (store.dir scope))

/-- `self._write(self._skill_path(scope, skill.name), skill)`. -/
def writeSkill (skill : SkillRecord) : FileProg Unit := do
  store.makeDir scope
  Tree.mkdirs (trail (store.skillFolder table scope skill.name))
  Tree.writeText (store.skillPath table scope skill.name).resolve (written skill)

/-- `list`. A folder that the pattern finds is read like a file, which raises. -/
def listSkills (includeDisabled : Bool) : FileProg (List SkillRecord) := do
  store.makeDir scope
  let t ← Prog.get
  if t.folders.any fun p => p.length = (store.dir scope).resolve.length + 2 ∧
      (store.dir scope).resolve <+: p ∧ p.name = "SKILL.md" then
    Prog.throw ()
  else match store.list table scope t.files includeDisabled with
    | none => Prog.throw ()
    | some skills => pure skills

/-- `get`. -/
def getSkill (name : String) : FileProg (Option SkillRecord) := do
  store.makeDir scope
  match ← Tree.readText (store.skillPath table scope name).resolve with
  | none => pure none
  | some file =>
    match parse table (store.skillFolder table scope name).name file with
    | none => Prog.throw ()
    | some skill => pure (some skill)

/-- `upsert`. -/
def upsertSkill (skill : SkillRecord) : FileProg SkillRecord := do
  let skill := { skill with name := normalizeName table skill.name }
  store.writeSkill table scope skill
  pure skill

/-- Write one skill after the other. -/
def writeAll : List SkillRecord → FileProg Unit
  | [] => pure ()
  | skill :: skills => do
    store.writeSkill table scope skill
    writeAll skills

/-- A call. -/
def call : SkillOp SkillRecord → FileProg (List SkillRecord)
  | .search query k => do
    let skills ← store.listSkills table scope false
    let found := (skills.filter fun s => s.matchesQuery table (table.lower query)).map
      SkillRecord.countUse
    store.writeAll table scope found
    pure (upTo k found)
  | .upsert skill => do
    let skill ← store.upsertSkill table scope skill
    pure [skill]
  | .list includeDisabled => store.listSkills table scope includeDisabled
  | .delete name => do
    store.makeDir scope
    Tree.unlink (store.skillPath table scope name).resolve (store.skillFolder table scope name).resolve
    pure []
  | .disable name => do
    match ← store.getSkill table scope name with
    | none => pure []
    | some skill =>
      let _ ← store.upsertSkill table scope { skill with enabled := false }
      pure []
  | .get name => do
    let skill ← store.getSkill table scope name
    pure skill.toList

end FileSkillStore

end Skills
end Nexus

import RingBridge.Export
/-!
Binding modules: the wrappers of all exports of a document, what a module is configured with, and the text of the
whole.
-/
namespace RingBridge
open Layout

structure Module where
  moduleName : Value
  modulePrefix : String
  wrappers : List Wrapper

namespace Module

def registrations (m : Module) : List Registration := m.wrappers.map Wrapper.registration

def tags (m : Module) : Tags := Tags.recordAll {} (m.wrappers.flatMap Wrapper.structs)

def exportedNames (m : Module) : List String := m.registrations.map Registration.name

/-- The last registration of a name, the one that stays when names are registered again. -/
def find? (m : Module) (name : String) : Option Registration :=
  m.registrations.reverse.find? fun r => r.name = name

def header (m : Module) : List Op :=
  [.line ("// machine generated from " ++ (if m.moduleName.isTrue then m.moduleName.plain else "<input>")
      ++ ", do not edit"),
    .line "use ring_lang_rs::*;", .line ""]

def tagOps (t : Tags) : List Op :=
  match t.declarations with
  | [] => []
  | ds => ds.map .line ++ [.line ""]

def tableLine (r : Registration) : String := quoteLiteral r.name ++ " => " ++ r.wrapper ++ ","

def table (rs : List Registration) : List Op :=
  .enter "ring_libinit! \x7b" "\x7d" :: rs.map (fun r => .line (tableLine r)) ++ [.leave]

def ops (m : Module) : List Op :=
  m.header ++ tagOps m.tags ++ m.wrappers.flatMap Wrapper.ops ++ table m.registrations

def code (m : Module) : String := write m.ops ++ "\n"

end Module

structure ModuleSettings where
  ignored : List String := []
  handlers : Table String Handler := {}

structure Settings where
  ignored : List String := []
  modules : Table String ModuleSettings := {}

def sortedNames (names : List String) : List String := names.eraseDups.mergeSort fun a b => decide (a ≤ b)

namespace Settings

def ignore (s : Settings) (names : List String) : Settings := { s with ignored := s.ignored ++ names }

def moduleFor (s : Settings) (modulePrefix : String) : ModuleSettings :=
  (s.modules.find? (Name.joining modulePrefix)).getD {}

def setModule (s : Settings) (modulePrefix : String) (m : ModuleSettings) : Settings :=
  { s with modules := s.modules.put (Name.joining modulePrefix) m }

def ignoreIn (s : Settings) (modulePrefix : String) (names : List String) : Settings :=
  let m := s.moduleFor modulePrefix
  s.setModule modulePrefix { m with ignored := m.ignored ++ names }

def handle (s : Settings) (modulePrefix type : String) (h : Handler) : Settings :=
  let m := s.moduleFor modulePrefix
  s.setModule modulePrefix { m with handlers := m.handlers.put type h }

def converter (m : ModuleSettings) (modulePrefix : String) : Converter :=
  m.handlers.entries.foldl (fun c e => c.register e.1 e.2) { modulePrefix }

def plan (s : Settings) (d : Document Value) (modulePrefix : String) : Except TextError Plan := do
  return ⟨s.ignored ++ (s.moduleFor modulePrefix).ignored, ← MethodIndex.ofDocument d⟩

/-- The exports of a document in order, unless one of them is due and cannot be made; the first of these decides. -/
def exports (s : Settings) (d : Document Value) (modulePrefix : String) : Except TextError (List Export) := do
  let plan ← s.plan d modulePrefix
  (d.decls.flatMap plan.exports).mapM id

def generate (s : Settings) (d : Document Value) (modulePrefix : Option String) : Except TextError Module := do
  let joined ← d.joinedPrefix modulePrefix
  let exports ← s.exports d joined
  return ⟨d.moduleName, joined, exports.map (Export.wrapper (converter (s.moduleFor joined) joined))⟩

end Settings
end RingBridge

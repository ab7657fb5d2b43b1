import RingBridge.Module
/-!
The reference of a module in Markdown: free functions first, then the operations of each struct, in the order in
which their owners come up.
-/
namespace RingBridge.Reference

def signature (r : Registration) : String :=
  "### `" ++ r.name ++ "(" ++ ", ".intercalate (r.params.map (·.1)) ++ ")`"

def comment (v : Value) : List String := if v.isTrue then [v.plain, ""] else []

def entry (r : Registration) : List String :=
  [signature r, ""] ++ comment r.comment ++ r.params.map (fun p => "- `" ++ p.1 ++ "`: " ++ p.2)
    ++ ["- returns: " ++ r.result, ""]

def section_ (title : String) (rs : List Registration) : List String := ["## " ++ title, ""] ++ rs.flatMap entry

def free (rs : List Registration) : List Registration := rs.filter fun r => r.owner.isNone

def owners (rs : List Registration) : List String := (rs.filterMap Registration.owner).eraseDups

def ownedBy (owner : String) (rs : List Registration) : List Registration := rs.filter fun r => r.owner = some owner

def lines (title : String) (rs : List Registration) : List String :=
  ["# " ++ title ++ " API reference", "", "Auto-generated, do not edit.", ""]
    ++ (if (free rs).isEmpty then [] else section_ "Functions" (free rs))
    ++ (owners rs).flatMap fun o => section_ o (ownedBy o rs)

def title (m : Module) : String := if m.moduleName.isTrue then m.moduleName.plain else "extension"

def strayComment? (rs : List Registration) : Option Value :=
  (rs.map Registration.comment).find? fun
    | .text _ => false
    | v => v.isTrue

def render (m : Module) : Except TextError String :=
  match strayComment? m.registrations with
  | some v => .error (.comment v)
  | none => .ok ("\n".intercalate (lines (title m) m.registrations))

end RingBridge.Reference

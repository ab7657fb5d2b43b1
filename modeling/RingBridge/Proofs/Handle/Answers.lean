import RingBridge.Handle
import RingBridge.Proofs.Layout.Rows
/-!
Answers about handles, line by line. Every answer is spelled out as lines of text in which the places of the tag
constants are marked, so which constants an answer gives or mentions can be read off it.
-/
namespace RingBridge.Handle
open Layout

/-- A piece of a line: text, or a tag constant. -/
inductive Part where
  | text (s : String)
  | constant (name : String)

namespace Part

def code : Part → String
  | text s | constant s => s

def constant? : Part → Option String
  | text _ => none
  | constant name => some name

end Part

structure Line where
  depth : Nat
  parts : List Part

namespace Line

def plain (depth : Nat) (s : String) : Line := ⟨depth, [.text s]⟩

def around (front const back : String) : Line := ⟨0, [.text front, .constant const, .text back]⟩

def code (l : Line) : String := String.join (l.parts.map Part.code)

def row (l : Line) : Row := ⟨l.depth, l.code⟩

def text (l : Line) : String := placed l.depth l.code

def constants (l : Line) : List String := l.parts.filterMap Part.constant?

@[simp] theorem row_plain (depth : Nat) (s : String) : (plain depth s).row = ⟨depth, s⟩ := by
  simp [row, code, plain, Part.code]

@[simp] theorem row_around (front const back : String) : (around front const back).row = ⟨0, front ++ const ++ back⟩ := by
  simp [row, code, around, Part.code, String.append_assoc]

theorem placedAt_row (l : Line) : l.row.placedAt 0 = l.text := by
  rw [Row.placedAt, Nat.zero_add]
  rfl

end Line

namespace Request
open Line

def boxed (value : String) : String := "Box::new(" ++ value ++ ")"

def invalid (struct : String) : String := "ring_error!(p, " ++ quoteLiteral ("Invalid " ++ struct ++ " pointer") ++ ");"

def lines (t : Tags) : Request → List Line
  | tag s => [around "" (Name.tag s) ""]
  | intoRaw v => [plain 0 ("Box::into_raw(Box::new(" ++ v ++ "))")]
  | answer v s => [around ("ring_ret_cpointer!(p, Box::into_raw(" ++ boxed v ++ "), ") (Name.tag s) ");"]
  | answerBoxed b s => [around ("ring_ret_cpointer!(p, Box::into_raw(" ++ b ++ "), ") (Name.tag s) ");"]
  | append l v s =>
    [around ("ring_list_addcpointer(" ++ l ++ ", Box::into_raw(" ++ boxed v ++ ") as *mut std::ffi::c_void, ")
      (Name.tag s) ");"]
  | appendBoxed l b s =>
    [around ("ring_list_addcpointer(" ++ l ++ ", Box::into_raw(" ++ b ++ ") as *mut std::ffi::c_void, ")
      (Name.tag s) ");"]
  | read ptr idx s => [around ("let " ++ ptr ++ " = ring_get_cpointer!(p, " ++ toString idx ++ ", ") (Name.tag s) ");"]
  | borrow ptr s true => [plain 0 ("unsafe \x7b &mut *(" ++ ptr ++ " as *mut " ++ s ++ ") \x7d")]
  | borrow ptr s false => [plain 0 ("unsafe \x7b &*(" ++ ptr ++ " as *const " ++ s ++ ") \x7d")]
  | duplicate ptr s => [plain 0 ("unsafe \x7b (*(" ++ ptr ++ " as *const " ++ s ++ ")).clone() \x7d")]
  | receive x s =>
    [around ("let " ++ x ++ " = match ring_get_pointer!(p, 1, " ++ s ++ ", ") (Name.tag s) ") \x7b",
      plain 1 ("Some(" ++ x ++ ") => " ++ x ++ ","), plain 1 "None => \x7b", plain 2 (invalid s), plain 2 "return;",
      plain 1 "\x7d", plain 0 "\x7d;"]
  | guard ptr s =>
    [plain 0 ("if " ++ ptr ++ ".is_null() \x7b"), plain 1 (invalid s), plain 1 "return;", plain 0 "\x7d"]
  | reclaim s =>
    [around "let ptr = ring_get_cpointer!(p, 1, " (Name.tag s) ");", plain 0 "if !ptr.is_null() \x7b",
      plain 1 ("unsafe \x7b let _ = Box::from_raw(ptr as *mut " ++ s ++ "); \x7d"),
      plain 1 "ring_api_setnullpointer(p, 1);", plain 0 "\x7d"]
  | declare => t.entries.map fun e => around "const " e.1 (": &[u8] = b\"" ++ e.2 ++ "\\0\";")

/-- The constants that the answer gives or mentions, in order. -/
def constants (t : Tags) (r : Request) : List String := (r.lines t).flatMap Line.constants

variable {t : Tags} {r : Request}

theorem constants_declare : declare.constants t = t.keys := by
  rw [constants, lines, List.flatMap_map, Table.keys, List.map_eq_flatMap]
  rfl

/-- Any other answer has the constants of the structs that are recorded for it. -/
theorem constants_eq (h : r ≠ declare) : r.constants t = r.structs.map Name.tag := by
  cases r with
  | declare => exact absurd rfl h
  | borrow ptr s m => cases m <;> rfl
  | _ => rfl

theorem text_eq_of_code? {c : Code} (h : r.code? = some c) : r.text t = c.text := by
  cases r with
  | tag | intoRaw | declare => cases h
  | _ => cases h; rfl

theorem text_of_writes {c : Code} {ls : List Line} (h : r.code? = some c) (hw : Writes c.ops (ls.map row)) :
    r.text t = "\n".intercalate (ls.map Line.text) := by
  have hrows : (ls.map row).map (Row.placedAt 0) = ls.map Line.text := by
    rw [List.map_map]
    exact List.map_congr_left fun l _ => l.placedAt_row
  rw [text_eq_of_code? h, Code.text, hw.write_eq, hrows]

theorem intercalate_line {s : String} {l : Line} (hl : l.row = ⟨0, s⟩) : "\n".intercalate ([l].map Line.text) = s := by
  rw [List.map_singleton, String.intercalate_singleton, ← Line.placedAt_row, hl, Row.placedAt_zero]

theorem text_of_line {s : Stmt} {l : Line} (h : r.code? = some (.line s)) (hl : l.row = ⟨0, s.code⟩) :
    r.text t = "\n".intercalate ([l].map Line.text) := by
  refine text_of_writes h ?_
  rw [List.map_singleton, hl]
  exact writes_line s.code

/-- A pointer is read in one statement, whose value is an expression of its own. -/
theorem code_bind_handle (ptr : String) (idx : Int) (s : String) : (Stmt.bind false ptr (.handle idx s)).code =
    "let " ++ ptr ++ " = ring_get_cpointer!(p, " ++ toString idx ++ ", " ++ Name.tag s ++ ");" := by
  have hcode : (Stmt.bind false ptr (.handle idx s)).code = "let" ++ " " ++ ptr ++ " = " ++
      ("ring_get_cpointer!(p, " ++ toString idx ++ ", " ++ Name.tag s ++ ")") ++ ";" := rfl
  have hlet : "let " = "let" ++ " " := rfl
  have hread : " = ring_get_cpointer!(p, " = " = " ++ "ring_get_cpointer!(p, " := rfl
  have hend : ");" = ")" ++ ";" := rfl
  rw [hcode, hlet, hread, hend]
  simp only [String.append_assoc]

theorem text_guard (ptr s : String) : (guard ptr s).text t = "\n".intercalate (((guard ptr s).lines t).map Line.text) := by
  refine text_of_writes rfl ?_
  have htest : ".is_null() \x7b" = ".is_null()" ++ " \x7b" := rfl
  have hopen : "if " ++ ptr ++ ".is_null() \x7b" = "if " ++ (ptr ++ ".is_null()") ++ " \x7b" := by
    rw [htest]
    simp only [String.append_assoc]
  simp only [lines, List.map_cons, List.map_nil, row_plain, hopen]
  exact (writes_lines [invalid s, "return;"]).inside.block ("if " ++ (ptr ++ ".is_null()") ++ " \x7b") "\x7d"

theorem text_reclaim (s : String) : (reclaim s).text t = "\n".intercalate (((reclaim s).lines t).map Line.text) := by
  refine text_of_writes rfl ?_
  have hread : "let ptr = ring_get_cpointer!(p, 1, " ++ Name.tag s ++ ");" = (Stmt.bind false "ptr" (.handle 1 s)).code := by
    rw [code_bind_handle]
    rfl
  simp only [lines, List.map_cons, List.map_nil, row_plain, row_around, hread]
  exact (writes_line _).append ((writes_lines ["unsafe \x7b let _ = Box::from_raw(ptr as *mut " ++ s ++ "); \x7d",
    "ring_api_setnullpointer(p, 1);"]).inside.block "if !ptr.is_null() \x7b" "\x7d")

theorem text_receive (x s : String) :
    (receive x s).text t = "\n".intercalate (((receive x s).lines t).map Line.text) := by
  refine text_of_writes rfl ?_
  simp only [lines, List.map_cons, List.map_nil, row_plain, row_around]
  have hnone := (writes_lines [invalid s, "return;"]).inside.block "None => \x7b" "\x7d"
  exact ((writes_line ("Some(" ++ x ++ ") => " ++ x ++ ",")).append hnone).inside.block
    ("let " ++ x ++ " = match ring_get_pointer!(p, 1, " ++ s ++ ", " ++ Name.tag s ++ ") \x7b") "\x7d;"

theorem text_lines_declare : (declare.lines t).map Line.text = t.declarations := by
  rw [lines, List.map_map, Tags.declarations]
  refine List.map_congr_left fun e _ => ?_
  rw [Function.comp, ← Line.placedAt_row, row_around, Row.placedAt_zero, Tags.declaration]
  simp only [String.append_assoc]

/-- The text of an answer is that of its lines. -/
theorem text_eq (r : Request) : r.text t = "\n".intercalate ((r.lines t).map Line.text) := by
  cases r with
  | tag s =>
    have hrow : (around "" (Name.tag s) "").row = ⟨0, Name.tag s⟩ := by
      rw [row_around, String.empty_append, String.append_empty]
    exact (intercalate_line hrow).symm
  | intoRaw v => exact (intercalate_line (row_plain ..)).symm
  | borrow ptr s m => cases m <;> exact text_of_line rfl (row_plain ..)
  | duplicate ptr s => exact text_of_line rfl (row_plain ..)
  | answer v s | answerBoxed b s | append l v s | appendBoxed l b s => exact text_of_line rfl (row_around ..)
  | read ptr idx s => exact text_of_line rfl ((row_around ..).trans (by rw [code_bind_handle]))
  | guard ptr s => exact text_guard ptr s
  | reclaim s => exact text_reclaim s
  | receive x s => exact text_receive x s
  | declare => rw [text_lines_declare]; rfl

end Request
end RingBridge.Handle

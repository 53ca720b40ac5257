import RondOS.Kernel.Vga
import Mathlib.Logic.Relation
import Mathlib.Tactic.IntervalCases

/-!
# A keystroke in the middle of a print

After `sti` the keyboard handler can run between any two steps of a `putc` of `main` and prints on
the same `VgaBuffer`. A configuration is the byte in progress, its pending micro-steps, the bytes
behind it and the console; the handler's own `putc` runs to completion. The result says at which
points, for which keys, the interrupted print is as good as one with the typed character between
two bytes.
-/

namespace RondOS.VgaInterrupt

open ByteMemory RustWord Console

set_option autoImplicit false

inductive Op where
  | writeChar (c : Byte)
  | compareEnd
  | incCol
  | copyRow (row : Nat)
  | clearCell (col : Nat)
  | zeroCol
  | testBack
  | eraseBack
  | decCol
  | deleteCopy
  | deleteBlank
  | loadPos
  | out (write : BitVec 16 × Byte)
  deriving DecidableEq

/-- The part of `new_line` from the blanking of cell `col` on. -/
def clearsFrom (col : Nat) : List Op :=
  (List.range' col (80 - col)).map .clearCell ++ [.zeroCol, .loadPos]

def copiesFrom (row : Nat) : List Op :=
  (List.range' row (25 - row)).map .copyRow ++ clearsFrom 0

def newLineOps : List Op := copiesFrom 1

def putcOps (c : Byte) : List Op :=
  if c = 0x0a then newLineOps
  else if c = 0x0d then [.zeroCol, .loadPos]
  else if c = 0x08 then [.testBack]
  else if c = 0x7f then [.deleteCopy, .deleteBlank]
  else [.writeChar c, .compareEnd]

/-- One micro-step: the steps it decides on, which come before those already pending, and the
console after it. `loadPos` evaluates the position; the port writes use that value. -/
def Op.run (prof : Profile) (vga : Vga) : Op → Option (List Op × Vga)
  | .writeChar c => do
      some ([], ← vga.writeCell (bufferHeight - 1) vga.colPos
        { asciiCharacter := c, colorCode := vga.curColor })
  | .compareEnd =>
      some (if vga.colPos = bufferWidth - 1 then newLineOps else [.incCol, .loadPos], vga)
  | .incCol => do some ([], { vga with colPos := ← prof.addNat 32 vga.colPos 1 })
  | .copyRow row => do some ([], ← vga.copyRow row)
  | .clearCell col => do
      some ([], ← vga.writeCell (bufferHeight - 1) col (blank vga.curColor))
  | .zeroCol => some ([], { vga with colPos := 0 })
  | .testBack => some (if vga.colPos > 0 then [.eraseBack, .decCol, .loadPos] else [], vga)
  | .eraseBack => do some ([], ← vga.eraseBack prof)
  | .decCol => do some ([], { vga with colPos := ← prof.subNat 32 vga.colPos 1 })
  | .deleteCopy => do some ([], ← vga.deleteCopy prof)
  | .deleteBlank => do
      some ([], ← vga.writeCell (bufferHeight - 1) (bufferWidth - 1) (blank vga.curColor))
  | .loadPos => do
      let pos ← prof.addNat 32 ((bufferHeight - 1) * bufferWidth) vga.colPos
      some ((cursorWrites pos).map .out, vga)
  | .out write => some ([], vga.outb write)

/-- Between bytes, when no step is pending, `current` is the byte before. -/
structure Config where
  current : Byte
  ops : List Op
  rest : List Byte
  vga : Vga

def Config.start (s : List Byte) (vga : Vga) : Config where
  current := 0
  ops := []
  rest := s
  vga

def step (prof : Profile) (cfg : Config) : Option Config :=
  match cfg.ops with
  | op :: pending => do
      let (more, vga) ← op.run prof cfg.vga
      some { cfg with ops := more ++ pending, vga }
  | [] =>
      match cfg.rest with
      | [] => none
      | b :: rest => some { current := b, ops := putcOps b, rest, vga := cfg.vga }

def Reaches (prof : Profile) : Config → Config → Prop :=
  Relation.ReflTransGen fun cfg next => step prof cfg = some next

theorem Reaches.next {prof : Profile} {start cfg next : Config} (reached : Reaches prof start cfg)
    (stepped : step prof cfg = some next) : Reaches prof start next :=
  Relation.ReflTransGen.tail reached stepped

/-- The print runs to its end, without an abort, and every `putc` on the way starts with the column
inside the row. -/
inductive Completes (prof : Profile) : Config → Vga → Prop
  | finished {cfg : Config} (noOps : cfg.ops = []) (noBytes : cfg.rest = []) :
      Completes prof cfg cfg.vga
  | step {cfg next : Config} {final : Vga} (inRow : cfg.ops = [] → cfg.vga.colPos < 80)
      (stepped : step prof cfg = some next) (completes : Completes prof next final) :
      Completes prof cfg final

/-- `scancode_to_char`; the outer `none` is the panic on code 0. -/
def scancodeToChar (code : Byte) : Option (Option Byte) :=
  if code = 0x00 then none
  else if 0x02 ≤ code ∧ code ≤ 0x0a then some (some (0x30 + code - 1))
  else if code = 0x0b then some (some 0x30)
  else if 0x10 ≤ code ∧ code ≤ 0x19 then
    some [0x71, 0x77, 0x65, 0x72, 0x74, 0x79, 0x75, 0x69, 0x6f, 0x70][code.toNat - 0x10]?
  else if code = 0x1c then some (some 0x0a)
  else if code = 0x0e then some (some 0x08)
  else if 0x1e ≤ code ∧ code ≤ 0x26 then
    some [0x61, 0x73, 0x64, 0x66, 0x67, 0x68, 0x6a, 0x6b, 0x6c][code.toNat - 0x1e]?
  else if 0x2c ≤ code ∧ code ≤ 0x32 then
    some [0x7a, 0x78, 0x63, 0x76, 0x62, 0x6e, 0x6d][code.toNat - 0x2c]?
  else if code = 0x39 then some (some 0x20)
  else if 0x80 ≤ code then some none
  else some (some 0x3f)

def Typed (t : Byte) : Prop := ∃ code, scancodeToChar code = some (some t)

def SameDisplay (first second : Vga) : Prop :=
  first.chars = second.chars ∧ first.colPos = second.colPos ∧ first.cursor = second.cursor

/-- The handler prints `t` at the configuration, `main` then finishes its print of `s`, and the
outcome is that of `s` with `t` inserted between two bytes. -/
def Serializes (prof : Profile) (s : List Byte) (start : Vga) (t : Byte) (cfg : Config) : Prop :=
  cfg.vga.colPos < 80 ∧ ∃ typed final, cfg.vga.putc prof t = some typed ∧
    Completes prof { cfg with vga := typed } final ∧
    ∃ before after sequential, s = before ++ after ∧
      start.writeBytes prof (before ++ t :: after) = some sequential ∧ SameDisplay final sequential

/-- The interruption points and keys that do no harm, by the micro-step that comes next. -/
def Harmless (t : Byte) (cfg : Config) : Prop :=
  match cfg.ops with
  | [] => True
  | .writeChar _ :: _ => True
  | .compareEnd :: _ => t = 0x08 ∧ cfg.vga.colPos = 0
  | .incCol :: _ => t = 0x08 ∧ cfg.vga.colPos = 0
  | .copyRow row :: _ =>
      if cfg.current = 0x0a then row = 1 ∨ t = 0x08 ∨ (t ≠ 0x0a ∧ cfg.vga.colPos < 79)
      else row = 1 ∧ t = 0x0a
  | .clearCell _ :: _ => t = 0x08
  | .zeroCol :: _ => cfg.current = 0x0d ∨ t = 0x08 ∨ t = 0x0a
  | .testBack :: _ => True
  | .eraseBack :: _ =>
      (t = 0x08 ∧ cfg.vga.colPos ≠ 1) ∨ (t ≠ 0x08 ∧ t ≠ 0x0a ∧ cfg.vga.colPos < 79)
  | .decCol :: _ => False
  | .deleteCopy :: _ => True
  | .deleteBlank :: _ => t ≠ 0x0a
  | .loadPos :: _ => True
  | .out write :: _ =>
      write = (0x3d4, 0x0f) →
        (cfg.vga.colPos = 0 ∧ (t = 0x08 ∨ t = 0x0a)) ∨
          cfg.rest.any (updatesCursor (cfg.vga.effect t).colPos)

theorem typed_cases {t : Byte} (typed : Typed t) : t = 0x0a ∨ t = 0x08 ∨ Shows t := by
  obtain ⟨code, produced⟩ := typed
  have every : ∀ code : Byte, (scancodeToChar code).join.all fun t =>
      t = 0x0a ∨ t = 0x08 ∨ (t ≠ 0x0a ∧ t ≠ 0x0d ∧ t ≠ 0x08 ∧ t ≠ 0x7f) := by
    decide +kernel
  have this := every code
  rw [produced] at this
  simpa [Shows] using this

def Finishes (prof : Profile) (c : Byte) (ops : List Op) (vga result : Vga) : Prop :=
  ∀ rest final, Completes prof { current := c, ops := [], rest, vga := result } final →
    Completes prof { current := c, ops, rest, vga } final

section Finishing

variable {prof : Profile} {c : Byte}

theorem finishes_nil (vga : Vga) : Finishes prof c [] vga vga := fun _ _ completes => completes

theorem finishes_op {op : Op} {more ops : List Op} {vga next result : Vga}
    (ran : op.run prof vga = some (more, next)) (later : Finishes prof c (more ++ ops) next result) :
    Finishes prof c (op :: ops) vga result := by
  intro rest final completes
  refine Completes.step (fun absurdity => by cases absurdity) ?_ (later rest final completes)
  simp only [step, ran, Option.bind_eq_bind, Option.bind_some]

theorem finishes_outs (writes : List (BitVec 16 × Byte)) (vga : Vga) :
    Finishes prof c (writes.map .out) vga (writes.foldl Vga.outb vga) := by
  induction writes generalizing vga with
  | nil => exact finishes_nil vga
  | cons write writes ih => exact finishes_op rfl (ih (vga.outb write))

theorem run_load {vga : Vga} (inside : vga.colPos < 80) :
    Op.loadPos.run prof vga = some ((cursorWrites (24 * 80 + vga.colPos)).map .out, vga) := by
  have pos : prof.addNat 32 (24 * bufferWidth) vga.colPos = some (24 * 80 + vga.colPos) :=
    add_nat_exact prof (by unfold bufferWidth; omega)
  simp only [Op.run, buffer_height_pred, pos, Option.bind_eq_bind, Option.bind_some]

theorem finishes_load {vga : Vga} (inside : vga.colPos < 80) :
    Finishes prof c [.loadPos] vga vga.synced := by
  apply finishes_op (run_load inside)
  rw [List.append_nil, Vga.synced, ← cursor_writes_located]
  exact finishes_outs _ vga

theorem finishes_home (vga : Vga) :
    Finishes prof c [.zeroCol, .loadPos] vga { vga with colPos := 0 }.synced :=
  finishes_op rfl (finishes_load (Nat.zero_lt_succ 79))

theorem clears_from_cons {col : Nat} (inside : col < 80) :
    clearsFrom col = .clearCell col :: clearsFrom (col + 1) := by
  have count : 80 - col = 80 - (col + 1) + 1 := by omega
  rw [clearsFrom, count, List.range'_succ, List.map_cons, List.cons_append, clearsFrom]

theorem copies_from_cons {row : Nat} (inside : row < 25) :
    copiesFrom row = .copyRow row :: copiesFrom (row + 1) := by
  have count : 25 - row = 25 - (row + 1) + 1 := by omega
  rw [copiesFrom, count, List.range'_succ, List.map_cons, List.cons_append, copiesFrom]

theorem run_clear_cell (vga : Vga) (chars : Screen) {col : Nat} (inside : col < 80) :
    (Op.clearCell col).run prof { vga with chars := cleared col vga.curColor chars } =
      some ([], { vga with chars := cleared (col + 1) vga.curColor chars }) := by
  simp only [Op.run, buffer_height_pred, write_cell_inside _ _ inside, Option.bind_eq_bind,
    Option.bind_some, set_cell_cleared]

theorem run_copy_row (vga : Vga) (chars : Screen) {row : Nat} (first : 1 ≤ row)
    (last : row < 25) :
    (Op.copyRow row).run prof { vga with chars := copied row chars } =
      some ([], { vga with chars := copied (row + 1) chars }) := by
  simp only [Op.run, copy_row_copied vga chars first last, Option.bind_eq_bind, Option.bind_some]

theorem finishes_clears (vga : Vga) (chars : Screen) (left : Nat) (bound : left ≤ 80) :
    Finishes prof c (clearsFrom (80 - left))
      { vga with chars := cleared (80 - left) vga.curColor chars }
      { vga with chars := cleared 80 vga.curColor chars, colPos := 0 }.synced := by
  induction left with
  | zero => exact finishes_home _
  | succ left ih =>
      have next : 80 - (left + 1) + 1 = 80 - left := by omega
      rw [clears_from_cons (by omega)]
      apply finishes_op (run_clear_cell vga chars (by omega))
      rw [next]
      exact ih (by omega)

theorem finishes_copies (vga : Vga) (chars : Screen) (left : Nat) (bound : left ≤ 24) :
    Finishes prof c (copiesFrom (25 - left)) { vga with chars := copied (25 - left) chars }
      { vga with chars }.fed.synced := by
  induction left with
  | zero =>
      have clears : Finishes prof c _ _ _ :=
        finishes_clears vga (copied 25 chars) 80 (Nat.le_refl _)
      rw [Nat.sub_self, cleared_zero] at clears
      exact clears
  | succ left ih =>
      have next : 25 - (left + 1) + 1 = 25 - left := by omega
      rw [copies_from_cons (by omega)]
      apply finishes_op (run_copy_row vga chars (by omega) (by omega))
      rw [next]
      exact ih (by omega)

theorem finishes_feed (vga : Vga) : Finishes prof c newLineOps vga vga.fed.synced := by
  have copies : Finishes prof c _ _ _ := finishes_copies vga vga.chars 24 (Nat.le_refl _)
  rw [copied_one] at copies
  exact copies

theorem wrote_back (vga : Vga) :
    vga.wrote 0x08 = if vga.colPos = 0 then vga
      else { vga.erased with colPos := vga.colPos - 1 }.synced := by
  by_cases first : vga.colPos = 0 <;> simp [Vga.wrote, Vga.effect, updatesCursor, first]

theorem wrote_back_first {vga : Vga} (first : vga.colPos = 0) : vga.wrote 0x08 = vga := by
  rw [wrote_back, if_pos first]

theorem finishes_erase {vga : Vga} (inside : vga.colPos < 80) (positive : 0 < vga.colPos) :
    Finishes prof c [.eraseBack, .decCol, .loadPos] vga (vga.wrote 0x08) := by
  have back : prof.subNat 32 vga.erased.colPos 1 = some (vga.colPos - 1) :=
    sub_nat_exact prof positive (show vga.colPos < 2 ^ 32 by omega)
  have erase : Op.eraseBack.run prof vga = some ([], vga.erased) := by
    simp only [Op.run, erase_back_erased prof vga inside positive, Option.bind_eq_bind,
      Option.bind_some]
  have move : Op.decCol.run prof vga.erased =
      some ([], { vga.erased with colPos := vga.colPos - 1 }) := by
    simp only [Op.run, back, Option.bind_eq_bind, Option.bind_some]
  rw [wrote_back, if_neg (Nat.ne_of_gt positive)]
  exact finishes_op erase (finishes_op move
    (finishes_load (show vga.colPos - 1 < 80 by omega)))

theorem finishes_blank (vga : Vga) :
    Finishes prof c [.deleteBlank] vga
      { vga with chars := setCell vga.chars 24 79 (blank vga.curColor) } := by
  have blanked : Op.deleteBlank.run prof vga =
      some ([], { vga with chars := setCell vga.chars 24 79 (blank vga.curColor) }) := by
    simp only [Op.run, buffer_height_pred, buffer_width_pred,
      write_cell_inside vga _ (show 79 < 80 by decide), Option.bind_eq_bind, Option.bind_some]
  exact finishes_op blanked (finishes_nil _)

theorem finishes_turn {vga : Vga} (inside : vga.colPos < 79) :
    Finishes prof c [.incCol, .loadPos] vga { vga with colPos := vga.colPos + 1 }.synced := by
  have right : prof.addNat 32 vga.colPos 1 = some (vga.colPos + 1) :=
    add_nat_exact prof (by omega)
  have moved : Op.incCol.run prof vga = some ([], { vga with colPos := vga.colPos + 1 }) := by
    simp only [Op.run, right, Option.bind_eq_bind, Option.bind_some]
  exact finishes_op moved (finishes_load (show vga.colPos + 1 < 80 by omega))

theorem finishes_compare {vga : Vga} (inside : vga.colPos < 80) :
    Finishes prof c [.compareEnd] vga
      (if vga.colPos = 79 then vga.fed else { vga with colPos := vga.colPos + 1 }).synced := by
  by_cases full : vga.colPos = 79
  · have compared : Op.compareEnd.run prof vga = some (newLineOps, vga) := by
      rw [Op.run, if_pos (show vga.colPos = bufferWidth - 1 from full)]
    rw [if_pos full]
    apply finishes_op compared
    rw [List.append_nil]
    exact finishes_feed vga
  · have compared : Op.compareEnd.run prof vga = some ([.incCol, .loadPos], vga) := by
      rw [Op.run, if_neg (show ¬vga.colPos = bufferWidth - 1 from full)]
    rw [if_neg full]
    exact finishes_op compared (finishes_turn (by omega))

theorem wrote_delete (vga : Vga) :
    vga.wrote 0x7f = { vga with chars := deleted vga.curColor vga.colPos vga.chars } := rfl

theorem wrote_character {vga : Vga} {b : Byte} (glyph : Shows b) :
    vga.wrote b = (if vga.colPos = 79 then (vga.placed b).fed
      else { vga.placed b with colPos := vga.colPos + 1 }).synced := by
  rw [Vga.wrote, updates_of_shows glyph, if_pos rfl, effect_character vga glyph]

theorem putc_ops_character {b : Byte} (glyph : Shows b) :
    putcOps b = [.writeChar b, .compareEnd] := by
  rw [putcOps, if_neg glyph.1, if_neg glyph.2.1, if_neg glyph.2.2.1, if_neg glyph.2.2.2]

theorem byte_cases (b : Byte) : b = 0x0a ∨ b = 0x0d ∨ b = 0x08 ∨ b = 0x7f ∨ Shows b := by
  unfold Shows
  tauto

theorem run_write_char {vga : Vga} (b : Byte) (inside : vga.colPos < 80) :
    (Op.writeChar b).run prof vga = some ([], vga.placed b) := by
  simp only [Op.run, buffer_height_pred, write_cell_inside vga _ inside, Option.bind_eq_bind,
    Option.bind_some, Vga.placed]

theorem run_delete_copy {vga : Vga} (inside : vga.colPos < 80) :
    Op.deleteCopy.run prof vga =
      some ([], { vga with chars := shifted vga.colPos vga.chars }) := by
  simp only [Op.run, delete_copy_shifted prof vga inside, Option.bind_eq_bind, Option.bind_some]

theorem finishes_putc {vga : Vga} (b : Byte) (inside : vga.colPos < 80) :
    Finishes prof c (putcOps b) vga (vga.wrote b) := by
  rcases byte_cases b with feed | carriage | back | del | glyph
  · subst feed
    exact finishes_feed vga
  · subst carriage
    exact finishes_home vga
  · subst back
    by_cases first : vga.colPos = 0
    · have tested : Op.testBack.run prof vga = some ([], vga) := by
        rw [Op.run, if_neg (by omega)]
      rw [wrote_back_first first]
      exact finishes_op tested (finishes_nil vga)
    · have tested : Op.testBack.run prof vga = some ([.eraseBack, .decCol, .loadPos], vga) := by
        rw [Op.run, if_pos (by omega)]
      exact finishes_op tested (finishes_erase inside (by omega))
  · subst del
    exact finishes_op (run_delete_copy inside) (finishes_blank _)
  · rw [putc_ops_character glyph, wrote_character glyph]
    exact finishes_op (run_write_char b inside) (finishes_compare (show vga.colPos < 80 from inside))

theorem completes_rest (rest : List Byte) (c : Byte) (vga final : Vga) (inside : vga.colPos < 80)
    (written : vga.writeBytes prof rest = some final) :
    Completes prof { current := c, ops := [], rest, vga } final := by
  induction rest generalizing c vga with
  | nil =>
      cases written
      exact Completes.finished rfl rfl
  | cons b rest ih =>
      rw [write_bytes_cons prof vga b rest inside] at written
      exact Completes.step (fun _ => inside) rfl (finishes_putc b inside rest final
        (ih b (vga.wrote b) (wrote_col_lt vga b inside) written))

end Finishing

/-- The console whose rows a line feed of byte `b` moves up: with the byte placed when the feed is
the wrap at the end of the row. -/
inductive Feeding (b : Byte) (vga : Vga) : Vga → Prop
  | newline (feed : b = 0x0a) : Feeding b vga vga
  | wrap (glyph : Shows b) (full : vga.colPos = 79) : Feeding b vga (vga.placed b)

/-- Every stage inside the `putc` of `b` that started on `vga`: the pending steps and the console. -/
inductive Stage (b : Byte) (vga : Vga) : List Op → Vga → Prop
  | entered (other : b ≠ 0x0a) : Stage b vga (putcOps b) vga
  | placed (glyph : Shows b) : Stage b vga [.compareEnd] (vga.placed b)
  | turning (glyph : Shows b) (room : vga.colPos ≠ 79) :
      Stage b vga [.incCol, .loadPos] (vga.placed b)
  | copying {base : Vga} (feeding : Feeding b vga base) (left : Nat) (unfinished : 1 ≤ left)
      (bound : left ≤ 24) :
      Stage b vga (copiesFrom (25 - left)) { base with chars := copied (25 - left) base.chars }
  | clearing {base : Vga} (feeding : Feeding b vga base) (left : Nat) (bound : left ≤ 80) :
      Stage b vga (clearsFrom (80 - left))
        { base with chars := cleared (80 - left) base.curColor (copied 25 base.chars) }
  | erasing (back : b = 0x08) (positive : 0 < vga.colPos) :
      Stage b vga [.eraseBack, .decCol, .loadPos] vga
  | moving (back : b = 0x08) (positive : 0 < vga.colPos) :
      Stage b vga [.decCol, .loadPos] vga.erased
  | blanking (del : b = 0x7f) :
      Stage b vga [.deleteBlank] { vga with chars := shifted vga.colPos vga.chars }
  | loading (refresh : updatesCursor vga.colPos b = true) : Stage b vga [.loadPos] (vga.effect b)
  | writing (refresh : updatesCursor vga.colPos b = true) (done : Nat) (bound : done < 4) :
      Stage b vga (((cursorWrites (24 * 80 + (vga.effect b).colPos)).drop done).map .out)
        (((cursorWrites (24 * 80 + (vga.effect b).colPos)).take done).foldl Vga.outb (vga.effect b))

inductive Position (prof : Profile) (s : List Byte) (start : Vga) : Config → Prop
  | between (before : List Byte) (cfg : Config) (split : s = before ++ cfg.rest)
      (noOps : cfg.ops = []) (written : start.writeBytes prof before = some cfg.vga)
      (inRow : cfg.vga.colPos < 80) : Position prof s start cfg
  | within (before : List Byte) (vga : Vga) (cfg : Config)
      (split : s = before ++ cfg.current :: cfg.rest)
      (written : start.writeBytes prof before = some vga) (inRow : vga.colPos < 80)
      (stage : Stage cfg.current vga cfg.ops cfg.vga) : Position prof s start cfg

theorem write_bytes_append (prof : Profile) (vga : Vga) (before after : List Byte) :
    vga.writeBytes prof (before ++ after) =
      (vga.writeBytes prof before).bind fun mid => mid.writeBytes prof after :=
  List.foldlM_append

def Advances (prof : Profile) (b : Byte) (vga : Vga) (ops : List Op) (current : Vga) : Prop :=
  ∃ op pending more next, ops = op :: pending ∧ op.run prof current = some (more, next) ∧
    (Stage b vga (more ++ pending) next ∨ (more ++ pending = [] ∧ next = vga.wrote b))

theorem effect_of_feeding {b : Byte} {vga base : Vga} (feeding : Feeding b vga base) :
    vga.effect b = base.fed := by
  cases feeding with
  | newline feed =>
      subst feed
      rfl
  | wrap glyph full => rw [effect_character vga glyph, if_pos full]

theorem updates_of_feeding {b : Byte} {vga base : Vga} (feeding : Feeding b vga base) :
    updatesCursor vga.colPos b = true := by
  cases feeding with
  | newline feed =>
      subst feed
      rfl
  | wrap glyph _ => exact updates_of_shows glyph

section Stages

variable {prof : Profile} {b : Byte} {vga : Vga}

theorem wrote_of_updates (refresh : updatesCursor vga.colPos b = true) :
    vga.wrote b = (vga.effect b).synced := by
  rw [Vga.wrote, refresh, if_pos rfl]

theorem wrote_of_feeding {base : Vga} (feeding : Feeding b vga base) :
    vga.wrote b = base.fed.synced := by
  rw [wrote_of_updates (updates_of_feeding feeding), effect_of_feeding feeding]

theorem entered_advances (inside : vga.colPos < 80) (other : b ≠ 0x0a) :
    Advances prof b vga (putcOps b) vga := by
  rcases byte_cases b with feed | carriage | back | del | glyph
  · exact absurd feed other
  · subst carriage
    exact ⟨.zeroCol, [.loadPos], [], { vga with colPos := 0 }, rfl, rfl, Or.inl (Stage.loading rfl)⟩
  · subst back
    by_cases first : vga.colPos = 0
    · refine ⟨.testBack, [], [], vga, rfl, ?_, Or.inr ⟨rfl, (wrote_back_first first).symm⟩⟩
      rw [Op.run, if_neg (by omega)]
    · refine ⟨.testBack, [], [.eraseBack, .decCol, .loadPos], vga, rfl, ?_,
        Or.inl (Stage.erasing rfl (by omega))⟩
      rw [Op.run, if_pos (by omega)]
  · subst del
    exact ⟨.deleteCopy, [.deleteBlank], [], _, rfl, run_delete_copy inside,
      Or.inl (Stage.blanking rfl)⟩
  · exact ⟨.writeChar b, [.compareEnd], [], _, putc_ops_character glyph,
      run_write_char b inside, Or.inl (Stage.placed glyph)⟩

theorem placed_advances (glyph : Shows b) :
    Advances prof b vga [.compareEnd] (vga.placed b) := by
  by_cases full : vga.colPos = 79
  · refine ⟨.compareEnd, [], newLineOps, vga.placed b, rfl, ?_, Or.inl ?_⟩
    · rw [Op.run, if_pos (show (vga.placed b).colPos = bufferWidth - 1 from full)]
    · have stage := Stage.copying (Feeding.wrap glyph full) 24 (by decide) (Nat.le_refl _)
      rw [copied_one] at stage
      exact stage
  · refine ⟨.compareEnd, [], [.incCol, .loadPos], vga.placed b, rfl, ?_,
      Or.inl (Stage.turning glyph full)⟩
    rw [Op.run, if_neg (show ¬(vga.placed b).colPos = bufferWidth - 1 from full)]

theorem turning_advances (inside : vga.colPos < 80) (glyph : Shows b) (room : vga.colPos ≠ 79) :
    Advances prof b vga [.incCol, .loadPos] (vga.placed b) := by
  have right : prof.addNat 32 (vga.placed b).colPos 1 = some (vga.colPos + 1) :=
    add_nat_exact prof (show vga.colPos + 1 < 2 ^ 32 by omega)
  have stage := Stage.loading (b := b) (updates_of_shows glyph : updatesCursor vga.colPos b = true)
  rw [effect_character vga glyph, if_neg room] at stage
  refine ⟨.incCol, [.loadPos], [], _, rfl, ?_, Or.inl stage⟩
  simp only [Op.run, right, Option.bind_eq_bind, Option.bind_some]

theorem copying_advances {base : Vga} (feeding : Feeding b vga base) (left : Nat)
    (unfinished : 1 ≤ left) (bound : left ≤ 24) :
    Advances prof b vga (copiesFrom (25 - left))
      { base with chars := copied (25 - left) base.chars } := by
  refine ⟨.copyRow (25 - left), copiesFrom (25 - left + 1), [], _, copies_from_cons (by omega),
    run_copy_row base base.chars (by omega) (by omega), Or.inl ?_⟩
  by_cases last : left = 1
  · subst last
    have stage := Stage.clearing feeding 80 (Nat.le_refl _)
    rw [Nat.sub_self, cleared_zero] at stage
    exact stage
  · have stage := Stage.copying feeding (left - 1) (by omega) (by omega)
    have next : 25 - (left - 1) = 25 - left + 1 := by omega
    rw [next] at stage
    exact stage

theorem clearing_advances {base : Vga} (feeding : Feeding b vga base) (left : Nat)
    (bound : left ≤ 80) :
    Advances prof b vga (clearsFrom (80 - left))
      { base with chars := cleared (80 - left) base.curColor (copied 25 base.chars) } := by
  cases left with
  | zero =>
      have stage := Stage.loading (updates_of_feeding feeding)
      rw [effect_of_feeding feeding] at stage
      exact ⟨.zeroCol, [.loadPos], [], base.fed, rfl, rfl, Or.inl stage⟩
  | succ left =>
      have stage := Stage.clearing feeding left (by omega)
      have next : 80 - left = 80 - (left + 1) + 1 := by omega
      rw [next] at stage
      exact ⟨.clearCell (80 - (left + 1)), clearsFrom (80 - (left + 1) + 1), [], _,
        clears_from_cons (by omega), run_clear_cell base _ (by omega), Or.inl stage⟩

theorem writing_advances (refresh : updatesCursor vga.colPos b = true) (done : Nat)
    (bound : done < 4) :
    Advances prof b vga
      (((cursorWrites (24 * 80 + (vga.effect b).colPos)).drop done).map .out)
      (((cursorWrites (24 * 80 + (vga.effect b).colPos)).take done).foldl Vga.outb
        (vga.effect b)) := by
  interval_cases done
  · exact ⟨_, _, [], _, rfl, rfl, Or.inl (Stage.writing refresh 1 (by decide))⟩
  · exact ⟨_, _, [], _, rfl, rfl, Or.inl (Stage.writing refresh 2 (by decide))⟩
  · exact ⟨_, _, [], _, rfl, rfl, Or.inl (Stage.writing refresh 3 (by decide))⟩
  · exact ⟨_, _, [], _, rfl, rfl, Or.inr ⟨rfl, (wrote_of_updates refresh).symm⟩⟩

theorem stage_advances {ops : List Op} {current : Vga} (inside : vga.colPos < 80)
    (stage : Stage b vga ops current) : Advances prof b vga ops current := by
  cases stage with
  | entered other => exact entered_advances inside other
  | placed glyph => exact placed_advances glyph
  | turning glyph room => exact turning_advances inside glyph room
  | copying feeding left unfinished bound => exact copying_advances feeding left unfinished bound
  | clearing feeding left bound => exact clearing_advances feeding left bound
  | erasing back positive =>
      refine ⟨.eraseBack, [.decCol, .loadPos], [], vga.erased, rfl, ?_,
        Or.inl (Stage.moving back positive)⟩
      simp only [Op.run, erase_back_erased prof vga inside positive, Option.bind_eq_bind,
        Option.bind_some]
  | moving back positive =>
      subst back
      have left : prof.subNat 32 vga.erased.colPos 1 = some (vga.colPos - 1) :=
        sub_nat_exact prof positive (show vga.colPos < 2 ^ 32 by omega)
      have notFirst : vga.colPos ≠ 0 := Nat.ne_of_gt positive
      have refresh : updatesCursor vga.colPos 0x08 = true :=
        decide_eq_true ⟨by decide, fun both => notFirst both.2⟩
      have stage := Stage.loading refresh
      rw [Vga.effect, if_neg (by decide), if_neg (by decide), if_pos rfl, if_neg notFirst] at stage
      refine ⟨.decCol, [.loadPos], [], _, rfl, ?_, Or.inl stage⟩
      simp only [Op.run, left, Option.bind_eq_bind, Option.bind_some]
  | blanking del =>
      subst del
      refine ⟨.deleteBlank, [], [], _, rfl, ?_, Or.inr ⟨rfl, rfl⟩⟩
      simp only [Op.run, buffer_height_pred, buffer_width_pred,
        write_cell_inside _ _ (show 79 < 80 by decide), Option.bind_eq_bind, Option.bind_some]
      rfl
  | loading refresh =>
      exact ⟨.loadPos, [], _, _, rfl, run_load (effect_col_lt vga b inside),
        Or.inl (by rw [List.append_nil]; exact Stage.writing refresh 0 (by decide))⟩
  | writing refresh done bound => exact writing_advances refresh done bound

end Stages

theorem stage_fetched (b : Byte) (vga : Vga) : Stage b vga (putcOps b) vga := by
  by_cases feed : b = 0x0a
  · have stage := Stage.copying (Feeding.newline feed : Feeding b vga vga) 24 (by decide)
      (Nat.le_refl _)
    rw [copied_one] at stage
    rw [feed] at stage ⊢
    exact stage
  · exact Stage.entered feed

theorem write_bytes_concat {prof : Profile} {start vga : Vga} {before : List Byte} (b : Byte)
    (written : start.writeBytes prof before = some vga) (inside : vga.colPos < 80) :
    start.writeBytes prof (before ++ [b]) = some (vga.wrote b) := by
  rw [write_bytes_append, written, Option.bind_some, write_bytes_cons prof vga b [] inside]
  rfl

theorem position_step {prof : Profile} {s : List Byte} {start : Vga} {cfg next : Config}
    (position : Position prof s start cfg) (stepped : step prof cfg = some next) :
    Position prof s start next := by
  cases position with
  | between before _ split noOps written inRow =>
      cases bytes : cfg.rest with
      | nil =>
          simp only [step, noOps, bytes] at stepped
          cases stepped
      | cons b rest =>
          simp only [step, noOps, bytes, Option.some.injEq] at stepped
          subst stepped
          rw [bytes] at split
          exact Position.within before cfg.vga _ split written inRow (stage_fetched b cfg.vga)
  | within before vga _ split written inRow stage =>
      obtain ⟨op, pending, more, current, ops, ran, advanced⟩ :=
        (stage_advances inRow stage : Advances prof cfg.current vga cfg.ops cfg.vga)
      simp only [step, ops, ran, Option.bind_eq_bind, Option.bind_some, Option.some.injEq] at stepped
      subst stepped
      rcases advanced with stage | ⟨empty, done⟩
      · exact Position.within before vga _ split written inRow stage
      · subst done
        refine Position.between (before ++ [cfg.current]) _ ?_ empty
          (write_bytes_concat cfg.current written inRow) (wrote_col_lt vga cfg.current inRow)
        rw [List.append_assoc]
        exact split

/-- Induction over the run: `main` alone is always between two bytes or at a stage of one. -/
theorem reached_position {prof : Profile} {s : List Byte} {start : Vga} {cfg : Config}
    (inside : start.colPos < 80) (reached : Reaches prof (Config.start s start) cfg) :
    Position prof s start cfg := by
  induction reached with
  | refl => exact Position.between [] _ rfl rfl rfl inside
  | tail _ stepped ih => exact position_step ih stepped

theorem located_located (crtc : Crtc) (first second : Nat) :
    (crtc.located first).located second = crtc.located second := by
  unfold Crtc.located
  congr 1
  funext number
  by_cases high : number = 0x0e
  · subst high
    rw [Function.update_self, Function.update_self]
  · by_cases low : number = 0x0f
    · subst low
      rw [Function.update_of_ne high, Function.update_self, Function.update_of_ne high,
        Function.update_self]
    · simp only [Function.update_of_ne high, Function.update_of_ne low]

theorem effect_crtc (vga : Vga) (crtc : Crtc) (c : Byte) :
    { vga with crtc }.effect c = { vga.effect c with crtc } := by
  unfold Vga.effect
  split_ifs <;> rfl

theorem wrote_crtc (vga : Vga) (crtc : Crtc) (c : Byte) :
    { vga with crtc }.wrote c =
      { vga.effect c with
        crtc := if updatesCursor vga.colPos c then crtc.located (24 * 80 + (vga.effect c).colPos)
          else crtc } := by
  rw [Vga.wrote, effect_crtc]
  split_ifs <;> rfl

theorem synced_wrote (vga : Vga) (t : Byte) : (vga.wrote t).synced = vga.synced.wrote t := by
  have after := wrote_crtc vga (vga.crtc.located (24 * 80 + vga.colPos)) t
  rw [← Vga.synced] at after
  rw [after, Vga.wrote]
  cases refresh : updatesCursor vga.colPos t with
  | true =>
      rw [if_pos rfl, if_pos rfl, located_located, Vga.synced, Vga.synced, effect_keeps_crtc,
        located_located]
  | false =>
      obtain ⟨sameCol, sameCrtc⟩ := effect_of_quiet vga refresh
      simp only [Bool.false_eq_true, if_false, Vga.synced, sameCol, sameCrtc]

theorem set_cell_copied (chars : Screen) {row col : Nat} (ch : ScreenChar) (upper : row ≤ 24) :
    setCell (copied row chars) 24 col ch = copied row (setCell chars 24 col ch) := by
  funext r
  funext i
  unfold copied
  by_cases above : r.val + 1 < row ∧ r.val + 1 < 25
  · have source : ¬((⟨r.val + 1, above.2⟩ : Fin 25).val = 24 ∧ i.val = col) := by
      dsimp only
      omega
    rw [dif_pos above, setCell, if_neg (by omega), dif_pos above, setCell, if_neg source]
  · rw [dif_neg above, setCell, setCell, dif_neg above]

theorem set_cell_cleared_blank (color : ColorCode) (chars : Screen) (upTo col : Nat) :
    setCell (cleared upTo color chars) 24 col (blank color) =
      cleared upTo color (setCell chars 24 col (blank color)) := by
  funext r
  funext i
  simp only [setCell, cleared]
  by_cases hit : r.val = 24 ∧ i.val = col
  · rw [if_pos hit, if_pos hit, ite_self]
  · rw [if_neg hit, if_neg hit]

theorem cleared_set_cell (color : ColorCode) (chars : Screen) (col : Nat) (ch : ScreenChar) :
    cleared 80 color (setCell chars 24 col ch) = cleared 80 color chars := by
  funext r
  funext i
  unfold cleared setCell
  by_cases bottom : r.val = 24
  · rw [if_pos ⟨bottom, i.isLt⟩, if_pos ⟨bottom, i.isLt⟩]
  · rw [if_neg (fun both => bottom both.1), if_neg (fun both => bottom both.1),
      if_neg (fun both => bottom both.1)]

theorem set_cell_scrolled (color : ColorCode) (chars : Screen) (col : Nat) :
    setCell (scrolled color chars) 24 col (blank color) = scrolled color chars := by
  rw [scrolled, set_cell_cleared_blank, cleared_set_cell]

theorem set_cell_comm (chars : Screen) {first second : Nat} (one other : ScreenChar)
    (apart : first ≠ second ∨ one = other) :
    setCell (setCell chars 24 first one) 24 second other =
      setCell (setCell chars 24 second other) 24 first one := by
  funext r
  funext i
  unfold setCell
  by_cases firstHit : r.val = 24 ∧ i.val = first
  · by_cases secondHit : r.val = 24 ∧ i.val = second
    · rw [if_pos secondHit, if_pos firstHit]
      exact (apart.resolve_left fun differ => differ (firstHit.2.symm.trans secondHit.2)).symm
    · rw [if_neg secondHit, if_pos firstHit, if_pos firstHit]
  · rw [if_neg firstHit, if_neg firstHit]

theorem set_cell_twice (chars : Screen) (col : Nat) (one other : ScreenChar) :
    setCell (setCell chars 24 col one) 24 col other = setCell chars 24 col other := by
  funext r
  funext i
  unfold setCell
  split_ifs <;> rfl

/-- The rest of the byte, run after the typed character, ends in one of the two sequential
outcomes. -/
def Absorbs (prof : Profile) (b : Byte) (vga : Vga) (t : Byte) (ops : List Op) (current : Vga) :
    Prop :=
  ∃ result, Finishes prof b ops (current.wrote t) result ∧
    (result = (vga.wrote t).wrote b ∨ result = (vga.wrote b).wrote t)

section Absorbing

variable {prof : Profile} {b t : Byte} {vga : Vga}

theorem absorbs_entered (inside : vga.colPos < 80) : Absorbs prof b vga t (putcOps b) vga :=
  ⟨_, finishes_putc b (wrote_col_lt vga t inside), Or.inl rfl⟩

theorem absorbs_idle_back {ops : List Op} {current : Vga} (first : vga.colPos = 0)
    (idle : current.colPos = 0) (finishes : Finishes prof b ops current (vga.wrote b)) :
    Absorbs prof b vga 0x08 ops current := by
  refine ⟨vga.wrote b, ?_, Or.inl ?_⟩
  · rw [wrote_back_first idle]
    exact finishes
  · rw [wrote_back_first first]

theorem absorbs_placed (glyph : Shows b) (first : vga.colPos = 0) :
    Absorbs prof b vga 0x08 [.compareEnd] (vga.placed b) := by
  apply absorbs_idle_back first (show (vga.placed b).colPos = 0 from first)
  rw [wrote_character glyph]
  exact finishes_compare (show vga.colPos < 80 by omega)

theorem absorbs_turning (glyph : Shows b) (first : vga.colPos = 0) :
    Absorbs prof b vga 0x08 [.incCol, .loadPos] (vga.placed b) := by
  apply absorbs_idle_back first (show (vga.placed b).colPos = 0 from first)
  rw [wrote_character glyph, if_neg (by omega)]
  exact finishes_turn (show vga.colPos < 79 by omega)

def StaysInRow (t : Byte) (col : Nat) : Prop := t = 0x08 ∨ (Shows t ∧ col < 79)

theorem wrote_copied {row : Nat} (stays : StaysInRow t vga.colPos) (upper : row ≤ 24) :
    { vga with chars := copied row vga.chars }.wrote t =
      { vga.wrote t with chars := copied row (vga.wrote t).chars } := by
  rcases stays with back | ⟨glyph, room⟩
  · subst back
    rw [wrote_back, wrote_back]
    by_cases first : vga.colPos = 0
    · rw [if_pos first, if_pos first]
    · rw [if_neg first, if_neg first]
      simp only [Vga.synced, Vga.erased, set_cell_copied _ _ upper]
  · have notFull : ¬vga.colPos = 79 := by omega
    rw [wrote_character glyph, wrote_character glyph, if_neg notFull, if_neg notFull]
    simp only [Vga.synced, Vga.placed, set_cell_copied _ _ upper]

theorem absorbs_newline_copy {left : Nat} (stays : StaysInRow t vga.colPos) (unfinished : 1 ≤ left)
    (bound : left ≤ 24) :
    Absorbs prof 0x0a vga t (copiesFrom (25 - left))
      { vga with chars := copied (25 - left) vga.chars } := by
  refine ⟨(vga.wrote t).fed.synced, ?_, Or.inl rfl⟩
  rw [wrote_copied stays (by omega)]
  exact finishes_copies (vga.wrote t) (vga.wrote t).chars left bound

theorem absorbs_wrap_newline (glyph : Shows b) (full : vga.colPos = 79) :
    Absorbs prof b vga 0x0a (copiesFrom 1) (vga.placed b) := by
  refine ⟨(vga.placed b).fed.synced.fed.synced, finishes_feed _, Or.inr ?_⟩
  rw [wrote_of_feeding (Feeding.wrap glyph full)]
  rfl

theorem absorbs_clear_back {base : Vga} (feeding : Feeding b vga base) {left : Nat}
    (bound : left ≤ 80) :
    Absorbs prof b vga 0x08 (clearsFrom (80 - left))
      { base with chars := cleared (80 - left) base.curColor (copied 25 base.chars) } := by
  refine ⟨base.fed.synced, ?_, Or.inr ?_⟩
  · rw [wrote_back]
    by_cases first : base.colPos = 0
    · rw [if_pos first]
      exact finishes_clears base (copied 25 base.chars) left bound
    · have clears : Finishes prof b _ _ _ :=
        finishes_clears { base with colPos := base.colPos - 1 }.synced
          (setCell (copied 25 base.chars) 24 (base.colPos - 1) (blank base.curColor)) left bound
      rw [cleared_set_cell] at clears
      rw [if_neg first]
      simp only [Vga.synced, Vga.erased, set_cell_cleared_blank, located_located] at clears ⊢
      exact clears
  · rw [wrote_of_feeding feeding]
    exact (wrote_back_first rfl).symm

theorem absorbs_home_newline {base : Vga} (feeding : Feeding b vga base) :
    Absorbs prof b vga 0x0a (clearsFrom 80)
      { base with chars := cleared 80 base.curColor (copied 25 base.chars) } := by
  refine ⟨_, finishes_home _, Or.inr ?_⟩
  rw [wrote_of_feeding feeding]
  change (Vga.fed { base with chars := scrolled base.curColor base.chars }).synced.synced =
    base.fed.synced.fed.synced
  simp only [Vga.synced, Vga.fed, located_located]

theorem absorbs_erasing (inside : vga.colPos < 80) (positive : 0 < (vga.wrote t).colPos) :
    Absorbs prof 0x08 vga t [.eraseBack, .decCol, .loadPos] vga :=
  ⟨_, finishes_erase (wrote_col_lt vga t inside) positive, Or.inl rfl⟩

theorem absorbs_blanking (key : t = 0x08 ∨ Shows t) :
    Absorbs prof 0x7f vga t [.deleteBlank]
      { vga with chars := shifted vga.colPos vga.chars } := by
  refine ⟨_, finishes_blank _, Or.inr ?_⟩
  rw [wrote_delete]
  rcases key with back | glyph
  · subst back
    rw [wrote_back, wrote_back]
    by_cases first : vga.colPos = 0
    · rw [if_pos first, if_pos first]
      rfl
    · rw [if_neg first, if_neg first]
      simp only [Vga.synced, Vga.erased, deleted]
      rw [set_cell_comm _ _ _ (Or.inr rfl)]
  · rw [wrote_character glyph, wrote_character glyph]
    by_cases full : vga.colPos = 79
    · rw [if_pos full, if_pos full]
      simp only [Vga.synced, Vga.fed, Vga.placed, deleted, full, set_cell_scrolled, set_cell_twice]
    · rw [if_neg full, if_neg full]
      simp only [Vga.synced, Vga.placed, deleted]
      rw [set_cell_comm _ _ _ (Or.inl full)]

theorem absorbs_loading (inside : vga.colPos < 80) (refresh : updatesCursor vga.colPos b = true) :
    Absorbs prof b vga t [.loadPos] (vga.effect b) := by
  have col := wrote_col_lt _ t (effect_col_lt vga b inside)
  refine ⟨((vga.effect b).wrote t).synced, finishes_load col, Or.inr ?_⟩
  rw [wrote_of_updates refresh, synced_wrote]

def Crtc.writes (crtc : Crtc) (writes : List (BitVec 16 × Byte)) : Crtc :=
  writes.foldl (fun current write => current.outb write.1 write.2) crtc

theorem foldl_outb (writes : List (BitVec 16 × Byte)) (vga : Vga) :
    writes.foldl Vga.outb vga = { vga with crtc := Crtc.writes vga.crtc writes } := by
  induction writes generalizing vga with
  | nil => rfl
  | cons write writes ih => exact ih (vga.outb write)

/-- With the first index write done, what is left of the port writes only stores the high byte
again, and that byte is the same for every column. -/
theorem late_writes (crtc : Crtc) (pos later done : Nat) (high : pos / 256 = later / 256)
    (first : 1 ≤ done) (bound : done < 4) :
    Crtc.writes ((Crtc.writes crtc ((cursorWrites pos).take done)).located later)
      ((cursorWrites pos).drop done) = crtc.located later := by
  interval_cases done <;>
    simp [cursorWrites, Crtc.writes, Crtc.outb, Crtc.located, high]

theorem all_writes (crtc : Crtc) (pos done : Nat) :
    Crtc.writes (Crtc.writes crtc ((cursorWrites pos).take done)) ((cursorWrites pos).drop done) =
      crtc.located pos := by
  rw [Crtc.writes, Crtc.writes, ← List.foldl_append, List.take_append_drop]
  rfl

theorem absorbs_writing (inside : vga.colPos < 80) (refresh : updatesCursor vga.colPos b = true)
    {done : Nat} (first : 1 ≤ done) (bound : done < 4) :
    Absorbs prof b vga t
      (((cursorWrites (24 * 80 + (vga.effect b).colPos)).drop done).map .out)
      (((cursorWrites (24 * 80 + (vga.effect b).colPos)).take done).foldl Vga.outb
        (vga.effect b)) := by
  have col := effect_col_lt vga b inside
  refine ⟨_, finishes_outs _ _, Or.inr ?_⟩
  rw [wrote_of_updates refresh, foldl_outb, foldl_outb]
  generalize vga.effect b = shown at col
  have typedCol := effect_col_lt shown t col
  rw [Vga.synced, wrote_crtc, wrote_crtc]
  cases updatesCursor shown.colPos t with
  | true =>
      rw [if_pos rfl, if_pos rfl, located_located,
        late_writes shown.crtc _ (24 * 80 + (shown.effect t).colPos) done (by omega) first bound]
  | false => rw [if_neg (by decide), if_neg (by decide), all_writes]

/-- Before the first index write the old position is still to be written. That is harmless if the
key leaves the column where it was. -/
theorem absorbs_stale_position (refresh : updatesCursor vga.colPos b = true)
    (same : ((vga.effect b).effect t).colPos = (vga.effect b).colPos) :
    Absorbs prof b vga t ((cursorWrites (24 * 80 + (vga.effect b).colPos)).map .out)
      (vga.effect b) := by
  refine ⟨_, finishes_outs _ _, Or.inr ?_⟩
  rw [wrote_of_updates refresh, ← synced_wrote, cursor_writes_located, Vga.synced, wrote_col, same]

end Absorbing

theorem feeding_col {b : Byte} {vga base : Vga} (feeding : Feeding b vga base) :
    base.colPos = vga.colPos := by
  cases feeding with
  | newline _ => rfl
  | wrap _ _ => rfl

theorem stage_col_lt {b : Byte} {vga current : Vga} {ops : List Op} (inside : vga.colPos < 80)
    (stage : Stage b vga ops current) : current.colPos < 80 := by
  cases stage with
  | entered _ => exact inside
  | placed _ => exact inside
  | turning _ _ => exact inside
  | copying feeding _ _ _ =>
      rw [← feeding_col feeding] at inside
      exact inside
  | clearing feeding _ _ =>
      rw [← feeding_col feeding] at inside
      exact inside
  | erasing _ _ => exact inside
  | moving _ _ => exact inside
  | blanking _ => exact inside
  | loading _ => exact effect_col_lt vga b inside
  | writing _ _ _ =>
      rw [foldl_outb]
      exact effect_col_lt vga b inside

theorem write_bytes_relocates (prof : Profile) (rest : List Byte) (vga : Vga) (crtc : Crtc)
    (first second : Nat) (inside : vga.colPos < 80)
    (refreshed : rest.any (updatesCursor vga.colPos) = true) :
    { vga with crtc := crtc.located first }.writeBytes prof rest =
      { vga with crtc := crtc.located second }.writeBytes prof rest := by
  induction rest generalizing vga with
  | nil => cases refreshed
  | cons c rest ih =>
      have next : ∀ pos, { vga with crtc := crtc.located pos }.writeBytes prof (c :: rest) =
          ({ vga with crtc := crtc.located pos }.wrote c).writeBytes prof rest :=
        fun pos => write_bytes_cons prof { vga with crtc := crtc.located pos } c rest inside
      rw [next, next, wrote_crtc, wrote_crtc]
      rw [List.any_cons] at refreshed
      cases refresh : updatesCursor vga.colPos c with
      | true => rw [if_pos rfl, if_pos rfl, located_located, located_located]
      | false =>
          rw [refresh, Bool.false_or] at refreshed
          rw [if_neg (by decide), if_neg (by decide)]
          apply ih (vga.effect c) (effect_col_lt vga c inside)
          rw [(effect_of_quiet vga refresh).1]
          exact refreshed

section Serializing

variable {prof : Profile} {s before rest : List Byte} {start vga current : Vga} {b t : Byte}
  {ops : List Op}

theorem serializes_of_finishes {result : Vga} (sequential : Vga) (current_lt : current.colPos < 80)
    (result_lt : result.colPos < 80) (finishes : Finishes prof b ops (current.wrote t) result)
    {leading trailing : List Byte} (split : s = leading ++ trailing)
    (ordered : start.writeBytes prof (leading ++ t :: trailing) = sequential.writeBytes prof rest)
    (same : result.writeBytes prof rest = sequential.writeBytes prof rest) :
    Serializes prof s start t { current := b, ops, rest, vga := current } := by
  obtain ⟨final, run, _⟩ := write_bytes_run prof rest result result_lt
  refine ⟨current_lt, current.wrote t, final, putc_eq prof current t current_lt,
    finishes rest final (completes_rest rest b result final result_lt run), leading, trailing,
    final, split, ?_, rfl, rfl, rfl⟩
  rw [ordered, ← same, run]

theorem serializes_of_absorbs (split : s = before ++ b :: rest)
    (written : start.writeBytes prof before = some vga) (inside : vga.colPos < 80)
    (current_lt : current.colPos < 80) (absorbs : Absorbs prof b vga t ops current) :
    Serializes prof s start t { current := b, ops, rest, vga := current } := by
  obtain ⟨result, finishes, outcome⟩ := absorbs
  have keyFirst := wrote_col_lt vga t inside
  have byteFirst := wrote_col_lt vga b inside
  rcases outcome with typedFirst | typedLast
  · subst typedFirst
    refine serializes_of_finishes _ current_lt (wrote_col_lt _ b keyFirst) finishes split ?_ rfl
    rw [write_bytes_append, written, Option.bind_some, write_bytes_cons prof vga t _ inside,
      write_bytes_cons prof _ b rest keyFirst]
  · subst typedLast
    have concat : s = (before ++ [b]) ++ rest := by
      rw [List.append_assoc]
      exact split
    refine serializes_of_finishes _ current_lt (wrote_col_lt _ t byteFirst) finishes concat ?_ rfl
    rw [write_bytes_append, write_bytes_concat b written inside, Option.bind_some,
      write_bytes_cons prof _ t rest byteFirst]

theorem serializes_stale_position (split : s = before ++ b :: rest)
    (written : start.writeBytes prof before = some vga) (inside : vga.colPos < 80)
    (refresh : updatesCursor vga.colPos b = true)
    (repaired : rest.any (updatesCursor ((vga.effect b).effect t).colPos) = true) :
    Serializes prof s start t
      { current := b, ops := (cursorWrites (24 * 80 + (vga.effect b).colPos)).map .out, rest,
        vga := vga.effect b } := by
  have col := effect_col_lt vga b inside
  have typedCol := effect_col_lt (vga.effect b) t col
  have byteFirst := wrote_col_lt vga b inside
  have concat : s = (before ++ [b]) ++ rest := by
    rw [List.append_assoc]
    exact split
  refine serializes_of_finishes ((vga.wrote b).wrote t) col ?_ (finishes_outs _ _) concat ?_ ?_
  · rw [cursor_writes_located]
    exact wrote_col_lt _ t col
  · rw [write_bytes_append, write_bytes_concat b written inside, Option.bind_some,
      write_bytes_cons prof _ t rest byteFirst]
  · rw [wrote_of_updates refresh, cursor_writes_located]
    generalize vga.effect b = shown at col typedCol repaired
    have handled : shown.wrote t = { shown.effect t with
        crtc := if updatesCursor shown.colPos t then
          shown.crtc.located (24 * 80 + (shown.effect t).colPos) else shown.crtc } :=
      wrote_crtc shown shown.crtc t
    have ordered : shown.synced.wrote t = { shown.effect t with
        crtc := if updatesCursor shown.colPos t then
          (shown.crtc.located (24 * 80 + shown.colPos)).located (24 * 80 + (shown.effect t).colPos)
          else shown.crtc.located (24 * 80 + shown.colPos) } :=
      wrote_crtc shown (shown.crtc.located (24 * 80 + shown.colPos)) t
    rw [handled, ordered]
    cases updatesCursor shown.colPos t with
    | true =>
        rw [if_pos rfl, if_pos rfl, located_located]
        simp only [located_located]
        exact write_bytes_relocates prof rest (shown.effect t) shown.crtc _ _ typedCol repaired
    | false => rfl

theorem erasing_room (inside : vga.colPos < 80) (key : t = 0x0a ∨ t = 0x08 ∨ Shows t)
    (positive : 0 < vga.colPos)
    (harmless : (t = 0x08 ∧ vga.colPos ≠ 1) ∨ (t ≠ 0x08 ∧ t ≠ 0x0a ∧ vga.colPos < 79)) :
    0 < (vga.wrote t).colPos := by
  rcases harmless with ⟨back, notSecond⟩ | ⟨notBack, notFeed, room⟩
  · subst back
    rw [wrote_back, if_neg (Nat.ne_of_gt positive)]
    exact show 0 < vga.colPos - 1 by omega
  · have glyph : Shows t := (key.resolve_left notFeed).resolve_left notBack
    rw [wrote_character glyph, if_neg (by omega)]
    exact Nat.zero_lt_succ vga.colPos

theorem harmless_copy {row : Nat} :
    Harmless t { current := b, ops := .copyRow row :: ops, rest, vga := current } ↔
      if b = 0x0a then row = 1 ∨ t = 0x08 ∨ (t ≠ 0x0a ∧ current.colPos < 79)
      else row = 1 ∧ t = 0x0a := Iff.rfl

theorem copying_absorbs {base : Vga} {left : Nat} (inside : vga.colPos < 80)
    (key : t = 0x0a ∨ t = 0x08 ∨ Shows t) (feeding : Feeding b vga base) (unfinished : 1 ≤ left)
    (bound : left ≤ 24)
    (harmless : Harmless t
      { current := b, ops := copiesFrom (25 - left), rest
        vga := { base with chars := copied (25 - left) base.chars } }) :
    Absorbs prof b vga t (copiesFrom (25 - left))
      { base with chars := copied (25 - left) base.chars } := by
  rw [copies_from_cons (by omega), harmless_copy] at harmless
  cases feeding with
  | newline feed =>
      subst feed
      rw [if_pos rfl] at harmless
      rcases harmless with top | back | ⟨notFeed, room⟩
      · have all : left = 24 := by omega
        subst all
        rw [copied_one]
        exact absorbs_entered inside
      · exact absorbs_newline_copy (Or.inl back) unfinished bound
      · apply absorbs_newline_copy _ unfinished bound
        rcases key.resolve_left notFeed with back | glyph
        · exact Or.inl back
        · exact Or.inr ⟨glyph, room⟩
  | wrap glyph full =>
      rw [if_neg glyph.1] at harmless
      obtain ⟨top, feed⟩ := harmless
      have all : left = 24 := by omega
      subst all
      subst feed
      rw [copied_one]
      exact absorbs_wrap_newline glyph full

theorem clearing_absorbs {base : Vga} {left : Nat} (feeding : Feeding b vga base)
    (bound : left ≤ 80)
    (harmless : Harmless t
      { current := b, ops := clearsFrom (80 - left), rest
        vga := { base with chars := cleared (80 - left) base.curColor (copied 25 base.chars) } }) :
    Absorbs prof b vga t (clearsFrom (80 - left))
      { base with chars := cleared (80 - left) base.curColor (copied 25 base.chars) } := by
  cases left with
  | zero =>
      have condition : b = 0x0d ∨ t = 0x08 ∨ t = 0x0a := harmless
      rcases condition with carriage | back | feed
      · cases feeding with
        | newline feed =>
            rw [carriage] at feed
            exact absurd feed (by decide)
        | wrap glyph _ => exact absurd carriage glyph.2.1
      · subst back
        exact absorbs_clear_back feeding (Nat.zero_le _)
      · subst feed
        exact absorbs_home_newline feeding
  | succ left =>
      rw [clears_from_cons (by omega)] at harmless
      have back : t = 0x08 := harmless
      subst back
      exact absorbs_clear_back feeding bound

theorem stage_serializes (split : s = before ++ b :: rest)
    (written : start.writeBytes prof before = some vga) (inside : vga.colPos < 80)
    (key : t = 0x0a ∨ t = 0x08 ∨ Shows t) (stage : Stage b vga ops current)
    (harmless : Harmless t { current := b, ops, rest, vga := current }) :
    Serializes prof s start t { current := b, ops, rest, vga := current } := by
  have current_lt := stage_col_lt inside stage
  have conclude : Absorbs prof b vga t ops current →
      Serializes prof s start t { current := b, ops, rest, vga := current } :=
    serializes_of_absorbs split written inside current_lt
  cases stage with
  | entered _ => exact conclude (absorbs_entered inside)
  | placed glyph =>
      obtain ⟨back, first⟩ := harmless
      subst back
      exact conclude (absorbs_placed glyph first)
  | turning glyph _ =>
      obtain ⟨back, first⟩ := harmless
      subst back
      exact conclude (absorbs_turning glyph first)
  | copying feeding left unfinished bound =>
      exact conclude (copying_absorbs inside key feeding unfinished bound harmless)
  | clearing feeding left bound => exact conclude (clearing_absorbs feeding bound harmless)
  | erasing back positive =>
      subst back
      exact conclude (absorbs_erasing inside (erasing_room inside key positive harmless))
  | moving _ _ => exact absurd harmless id
  | blanking del =>
      subst del
      exact conclude (absorbs_blanking (key.resolve_left harmless))
  | loading refresh => exact conclude (absorbs_loading inside refresh)
  | writing refresh done bound =>
      cases done with
      | zero =>
          rcases harmless rfl with ⟨first, key⟩ | repaired
          · have first : (vga.effect b).colPos = 0 := first
            apply conclude
            apply absorbs_stale_position refresh
            rcases key with back | feed
            · exact (effect_of_quiet _ (quiet_iff.mpr (Or.inr ⟨back, first⟩))).1
            · subst feed
              exact first.symm
          · exact serializes_stale_position split written inside refresh repaired
      | succ done => exact conclude (absorbs_writing inside refresh (Nat.succ_pos done) bound)

end Serializing

/-- For every text, console, key and interruption point of the print that is `Harmless`: the print
completes with every `putc` inside the row, and screen, column and cursor are those of a sequential
print with the character between two bytes. -/
theorem harmless_interrupt_serializes (prof : Profile) (s : List Byte) (start : Vga)
    (inside : start.colPos < 80) (t : Byte) (typed : Typed t) (cfg : Config)
    (reached : Reaches prof (Config.start s start) cfg) (harmless : Harmless t cfg) :
    Serializes prof s start t cfg := by
  have key := typed_cases typed
  rcases reached_position inside reached with
    ⟨before, _, split, noOps, written, inRow⟩ | ⟨before, vga, _, split, written, inRow, stage⟩
  · obtain ⟨current, ops, rest, vga⟩ := cfg
    dsimp only at split noOps written inRow
    subst noOps
    refine serializes_of_finishes (vga.wrote t) inRow (wrote_col_lt vga t inRow) (finishes_nil _)
      split ?_ rfl
    rw [write_bytes_append, written, Option.bind_some, write_bytes_cons prof vga t rest inRow]
  · exact stage_serializes split written inRow key stage harmless

def blankConsole : Vga := Vga.new (fun _ _ => blank 7) { index := 0, reg := fun _ => 0 }

theorem reaches_increment :
    Reaches .debug (Config.start [0x61] blankConsole)
      ⟨0x61, [.incCol, .loadPos], [], blankConsole.placed 0x61⟩ := by
  have fetched : Reaches .debug (Config.start [0x61] blankConsole)
      ⟨0x61, [.writeChar 0x61, .compareEnd], [], blankConsole⟩ :=
    Reaches.next Relation.ReflTransGen.refl rfl
  have placed : Reaches .debug (Config.start [0x61] blankConsole)
      ⟨0x61, [.compareEnd], [], blankConsole.placed 0x61⟩ := fetched.next rfl
  exact placed.next rfl

theorem key_before_cursor_update_serializes :
    ∃ cfg, Reaches .debug (Config.start [0x61] blankConsole) cfg ∧ cfg.ops = [.loadPos] ∧
      Serializes .debug [0x61] blankConsole 0x62 cfg := by
  have turned : step .debug ⟨0x61, [.incCol, .loadPos], [], blankConsole.placed 0x61⟩ =
      some ⟨0x61, [.loadPos], [], { blankConsole.placed 0x61 with colPos := 1 }⟩ := rfl
  have reached := reaches_increment.next turned
  exact ⟨_, reached, rfl, harmless_interrupt_serializes .debug [0x61] blankConsole (by decide) 0x62
    ⟨0x30, by decide⟩ _ reached trivial⟩

theorem completes_unique {prof : Profile} {cfg : Config} {first second : Vga}
    (one : Completes prof cfg first) (other : Completes prof cfg second) : first = second := by
  induction one with
  | finished noOps noBytes =>
      cases other with
      | finished _ _ => rfl
      | step _ stepped _ => simp [step, noOps, noBytes] at stepped
  | step _ stepped _ ih =>
      cases other with
      | finished noOps noBytes => simp [step, noOps, noBytes] at stepped
      | step _ again completes =>
          rw [stepped] at again
          cases again
          exact ih completes

/-- A key between the comparison with the last column and the increment: `b` overwrites `a`, and
the column counts both. -/
theorem key_before_increment_loses_character :
    ¬∀ (prof : Profile) (s : List Byte) (start : Vga), start.colPos < 80 → ∀ t, Typed t →
      ∀ cfg, Reaches prof (Config.start s start) cfg → Serializes prof s start t cfg := by
  intro serializes
  obtain ⟨_, typed, final, printed, completes, before, after, sequential, split, written, same⟩ :=
    serializes .debug [0x61] blankConsole (by decide) 0x62 ⟨0x30, by decide⟩ _ reaches_increment
  let overwritten := (blankConsole.placed 0x61).wrote 0x62
  have finishes : Finishes .debug 0x61 [.incCol, .loadPos] overwritten
      { overwritten with colPos := 2 }.synced := finishes_turn (by decide)
  have ends := finishes [] _ (Completes.finished rfl rfl)
  have outcome : final = { overwritten with colPos := 2 }.synced := by
    have handled := putc_eq .debug (blankConsole.placed 0x61) 0x62 (by decide)
    have first : typed = overwritten := Option.some.inj (printed.symm.trans handled)
    subst first
    exact completes_unique completes ends
  have lost : final.chars 24 1 = blank 7 := by
    rw [outcome]
    decide
  have cell := congrFun (congrFun same.1 24) 1
  rw [lost] at cell
  have inRow : blankConsole.colPos < 80 := by decide
  have orders : before ++ 0x62 :: after = [0x62, 0x61] ∨ before ++ 0x62 :: after = [0x61, 0x62] := by
    cases before with
    | nil =>
        cases split
        exact Or.inl rfl
    | cons head before =>
        obtain ⟨rfl, empty⟩ := List.cons.inj split
        obtain ⟨rfl, rfl⟩ := List.append_eq_nil_iff.mp empty.symm
        exact Or.inr rfl
  rcases orders with order | order
  · rw [order, write_bytes_cons _ _ _ _ inRow, write_bytes_cons _ _ _ _ (by decide)] at written
    cases written
    exact absurd cell (by decide)
  · rw [order, write_bytes_cons _ _ _ _ inRow, write_bytes_cons _ _ _ _ (by decide)] at written
    cases written
    exact absurd cell (by decide)

end RondOS.VgaInterrupt

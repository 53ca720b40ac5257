import RondOS.Lib.ByteMemory
import RondOS.Lib.RustWord
import Mathlib.Logic.Function.Basic

/-!
# The text console

`VgaBuffer` writes into the 25 rows of 80 cells at `VGA_BUFFER_ADDR`, keeps the column of the
bottom row and tells the CRT controller where the cursor is. Every array access and every slice
copy is checked against its bound, and a failed check is `none`. `Vga.effect` says in closed form
what one byte does to screen and column; whether the cursor registers follow is a separate question
that `updatesCursor` answers.
-/

namespace RondOS.Console

open ByteMemory RustWord

set_option autoImplicit false

inductive Color where
  | black
  | blue
  | green
  | cyan
  | red
  | magenta
  | brown
  | lightGray
  | darkGray
  | lightBlue
  | lightGreen
  | lightCyan
  | lightRed
  | pink
  | yellow
  | white
  deriving DecidableEq

abbrev ColorCode := Byte

def ColorCode.new (foreground background : Color) : ColorCode :=
  BitVec.ofNat 8 background.ctorIdx <<< 4 ||| BitVec.ofNat 8 foreground.ctorIdx

structure ScreenChar where
  asciiCharacter : Byte
  colorCode : ColorCode
  deriving DecidableEq

def bufferHeight : Nat := 25
def bufferWidth : Nat := 80

abbrev Row := Fin 80 → ScreenChar
abbrev Screen := Fin 25 → Row

structure Crtc where
  index : Byte
  reg : Byte → Byte

def Crtc.outb (crtc : Crtc) (port : BitVec 16) (value : Byte) : Crtc :=
  if port = 0x3d4 then { crtc with index := value }
  else if port = 0x3d5 then { crtc with reg := Function.update crtc.reg crtc.index value }
  else crtc

structure Vga where
  colPos : Nat
  curColor : ColorCode
  chars : Screen
  crtc : Crtc

def Vga.new (chars : Screen) (crtc : Crtc) : Vga where
  colPos := 0
  curColor := ColorCode.new .white .black
  chars
  crtc

/-- `copy_within(start..stop, dest)` on a slice of length `n`. -/
def copyWithin {Item : Type} {n : Nat} (items : Fin n → Item) (start stop dest : Nat) :
    Option (Fin n → Item) :=
  if bounds : start ≤ stop ∧ stop ≤ n ∧ dest + (stop - start) ≤ n then
    some fun i =>
      if inside : dest ≤ i.val ∧ i.val < dest + (stop - start) then
        items ⟨start + (i.val - dest), by omega⟩
      else items i
  else none

def setCell (chars : Screen) (row col : Nat) (ch : ScreenChar) : Screen :=
  fun r i => if r.val = row ∧ i.val = col then ch else chars r i

def blank (color : ColorCode) : ScreenChar where
  asciiCharacter := 0x20
  colorCode := color

def Vga.writeCell (row col : Nat) (ch : ScreenChar) (vga : Vga) : Option Vga :=
  if row < bufferHeight ∧ col < bufferWidth then
    some { vga with chars := setCell vga.chars row col ch }
  else none

/-- The four port writes of `update_cursor` for a computed position. -/
def cursorWrites (pos : Nat) : List (BitVec 16 × Byte) :=
  [(0x3d4, 0x0f), (0x3d5, BitVec.ofNat 8 pos), (0x3d4, 0x0e), (0x3d5, BitVec.ofNat 8 (pos / 256))]

def Vga.outb (vga : Vga) (write : BitVec 16 × Byte) : Vga :=
  { vga with crtc := vga.crtc.outb write.1 write.2 }

def Vga.updateCursor (prof : Profile) (height width : Nat) (vga : Vga) : Option Vga := do
  let pos ← prof.addNat 32 (height * bufferWidth) width
  some ((cursorWrites pos).foldl Vga.outb vga)

def Vga.clearRow (row : Nat) (vga : Vga) : Option Vga :=
  (List.range' 0 bufferWidth).foldlM
    (fun current col => current.writeCell row col (blank vga.curColor)) vga

/-- `buf.chars.copy_within(row..=row, row - 1)` -/
def Vga.copyRow (vga : Vga) (row : Nat) : Option Vga := do
  let chars ← copyWithin vga.chars row (row + 1) (row - 1)
  some { vga with chars }

def Vga.newLine (prof : Profile) (vga : Vga) : Option Vga := do
  let vga ← (List.range' 1 (bufferHeight - 1)).foldlM Vga.copyRow vga
  let vga ← vga.clearRow (bufferHeight - 1)
  let vga := { vga with colPos := 0 }
  vga.updateCursor prof (bufferHeight - 1) vga.colPos

def Vga.deleteCopy (prof : Profile) (vga : Vga) : Option Vga := do
  let start ← prof.addNat 32 vga.colPos 1
  let bottom ← copyWithin (vga.chars 24) start bufferWidth vga.colPos
  some { vga with chars := Function.update vga.chars 24 bottom }

def Vga.eraseBack (prof : Profile) (vga : Vga) : Option Vga := do
  vga.writeCell (bufferHeight - 1) (← prof.subNat 32 vga.colPos 1) (blank vga.curColor)

def Vga.putc (prof : Profile) (vga : Vga) (c : Byte) : Option Vga :=
  if c = 0x0a then vga.newLine prof
  else if c = 0x0d then
    let vga := { vga with colPos := 0 }
    vga.updateCursor prof (bufferHeight - 1) vga.colPos
  else if c = 0x08 then
    if vga.colPos > 0 then do
      let vga ← vga.eraseBack prof
      let vga := { vga with colPos := ← prof.subNat 32 vga.colPos 1 }
      vga.updateCursor prof (bufferHeight - 1) vga.colPos
    else some vga
  else if c = 0x7f then do
    let vga ← vga.deleteCopy prof
    vga.writeCell (bufferHeight - 1) (bufferWidth - 1) (blank vga.curColor)
  else do
    let vga ← vga.writeCell (bufferHeight - 1) vga.colPos
      { asciiCharacter := c, colorCode := vga.curColor }
    if vga.colPos = bufferWidth - 1 then vga.newLine prof
    else
      let vga := { vga with colPos := ← prof.addNat 32 vga.colPos 1 }
      vga.updateCursor prof (bufferHeight - 1) vga.colPos

def Vga.writeBytes (prof : Profile) (vga : Vga) (s : List Byte) : Option Vga :=
  s.foldlM (Vga.putc prof) vga

def copied (upTo : Nat) (chars : Screen) : Screen :=
  fun r => if above : r.val + 1 < upTo ∧ r.val + 1 < 25 then chars ⟨r.val + 1, above.2⟩ else chars r

def cleared (upTo : Nat) (color : ColorCode) (chars : Screen) : Screen :=
  fun r i => if r.val = 24 ∧ i.val < upTo then blank color else chars r i

def scrolled (color : ColorCode) (chars : Screen) : Screen :=
  cleared 80 color (copied 25 chars)

/-- The bottom row from `col` on moved left by one cell; the last cell stays as it was. -/
def shifted (col : Nat) (chars : Screen) : Screen :=
  fun r i =>
    if inside : r.val = 24 ∧ col ≤ i.val ∧ i.val + 1 < 80 then chars r ⟨i.val + 1, inside.2.2⟩
    else chars r i

def deleted (color : ColorCode) (col : Nat) (chars : Screen) : Screen :=
  setCell (shifted col chars) 24 79 (blank color)

def Vga.fed (vga : Vga) : Vga :=
  { vga with chars := scrolled vga.curColor vga.chars, colPos := 0 }

def Vga.placed (c : Byte) (vga : Vga) : Vga :=
  { vga with
    chars := setCell vga.chars 24 vga.colPos { asciiCharacter := c, colorCode := vga.curColor } }

/-- The cell before the column blanked, the column not moved yet. -/
def Vga.erased (vga : Vga) : Vga :=
  { vga with chars := setCell vga.chars 24 (vga.colPos - 1) (blank vga.curColor) }

/-- What a byte does to screen and column, the cursor registers left alone. -/
def Vga.effect (c : Byte) (vga : Vga) : Vga :=
  if c = 0x0a then vga.fed
  else if c = 0x0d then { vga with colPos := 0 }
  else if c = 0x08 then
    if vga.colPos = 0 then vga else { vga.erased with colPos := vga.colPos - 1 }
  else if c = 0x7f then { vga with chars := deleted vga.curColor vga.colPos vga.chars }
  else if vga.colPos = 79 then (vga.placed c).fed
  else { vga.placed c with colPos := vga.colPos + 1 }

/-- Delete never refreshes the cursor, and backspace does not in the first column. -/
def updatesCursor (col : Nat) (c : Byte) : Bool :=
  decide (c ≠ 0x7f ∧ ¬(c = 0x08 ∧ col = 0))

def Crtc.located (pos : Nat) (crtc : Crtc) : Crtc where
  index := 0x0e
  reg := Function.update (Function.update crtc.reg 0x0f (BitVec.ofNat 8 pos)) 0x0e
    (BitVec.ofNat 8 (pos / 256))

def Vga.synced (vga : Vga) : Vga :=
  { vga with crtc := vga.crtc.located (24 * 80 + vga.colPos) }

def Vga.wrote (c : Byte) (vga : Vga) : Vga :=
  if updatesCursor vga.colPos c then (vga.effect c).synced else vga.effect c

theorem buffer_height_pred : bufferHeight - 1 = 24 := rfl

theorem buffer_width_pred : bufferWidth - 1 = 79 := rfl

theorem write_cell_inside (vga : Vga) (ch : ScreenChar) {col : Nat} (inside : col < 80) :
    vga.writeCell 24 col ch = some { vga with chars := setCell vga.chars 24 col ch } :=
  if_pos ⟨by decide, inside⟩

theorem cursor_writes_located (pos : Nat) (vga : Vga) :
    (cursorWrites pos).foldl Vga.outb vga = { vga with crtc := vga.crtc.located pos } := rfl

theorem update_cursor_synced (prof : Profile) (vga : Vga) (inside : vga.colPos < 80) :
    vga.updateCursor prof 24 vga.colPos = some vga.synced := by
  have pos : prof.addNat 32 (24 * bufferWidth) vga.colPos = some (24 * 80 + vga.colPos) :=
    add_nat_exact prof (by unfold bufferWidth; omega)
  simp only [Vga.updateCursor, pos, Option.bind_eq_bind, Option.bind_some, cursor_writes_located,
    Vga.synced]

theorem copied_one (chars : Screen) : copied 1 chars = chars := by
  funext r
  rw [copied, dif_neg (by omega)]

theorem copy_row_copied (vga : Vga) (chars : Screen) {row : Nat} (first : 1 ≤ row)
    (last : row < 25) :
    Vga.copyRow { vga with chars := copied row chars } row =
      some { vga with chars := copied (row + 1) chars } := by
  have moved : copyWithin (copied row chars) row (row + 1) (row - 1) =
      some (copied (row + 1) chars) := by
    rw [copyWithin, dif_pos (by omega)]
    congr 1
    funext r
    by_cases target : r.val = row - 1
    · have next : row + (r.val - (row - 1)) = r.val + 1 := by omega
      rw [dif_pos (by omega), copied, dif_neg (by dsimp only; omega), copied, dif_pos (by omega)]
      congr 1
      exact Fin.ext next
    · rw [dif_neg (by omega)]
      unfold copied
      by_cases above : r.val + 1 < row
      · rw [dif_pos (by omega), dif_pos (by omega)]
      · rw [dif_neg (by omega), dif_neg (by omega)]
  rw [Vga.copyRow, moved]
  rfl

theorem cleared_zero (color : ColorCode) (chars : Screen) : cleared 0 color chars = chars := by
  funext r i
  rw [cleared, if_neg (by omega)]

theorem set_cell_cleared (color : ColorCode) (chars : Screen) (col : Nat) :
    setCell (cleared col color chars) 24 col (blank color) = cleared (col + 1) color chars := by
  funext r i
  unfold setCell cleared
  by_cases hit : r.val = 24 ∧ i.val = col
  · rw [if_pos hit, if_pos (by omega)]
  · rw [if_neg hit]
    by_cases before : r.val = 24 ∧ i.val < col
    · rw [if_pos before, if_pos (by omega)]
    · rw [if_neg before, if_neg (by omega)]

theorem clear_row_bottom (vga : Vga) :
    vga.clearRow 24 = some { vga with chars := cleared 80 vga.curColor vga.chars } := by
  have loop := foldlM_range_eq
    (fun current col => current.writeCell 24 col (blank vga.curColor))
    (fun col => { vga with chars := cleared col vga.curColor vga.chars }) 0 80 (by
      intro col _ inside
      rw [write_cell_inside _ _ (by omega), set_cell_cleared])
  simp only [cleared_zero] at loop
  exact loop

theorem new_line_fed (prof : Profile) (vga : Vga) : vga.newLine prof = some vga.fed.synced := by
  have copies := foldlM_range_eq Vga.copyRow
    (fun row => { vga with chars := copied row vga.chars }) 1 24 (by
      intro row first last
      exact copy_row_copied vga vga.chars first (by omega))
  simp only [copied_one] at copies
  simp only [Vga.newLine, buffer_height_pred, copies, Option.bind_eq_bind, Option.bind_some,
    clear_row_bottom]
  exact update_cursor_synced prof vga.fed (Nat.zero_lt_succ 79)

theorem delete_copy_shifted (prof : Profile) (vga : Vga) (inside : vga.colPos < 80) :
    vga.deleteCopy prof = some { vga with chars := shifted vga.colPos vga.chars } := by
  have next : prof.addNat 32 vga.colPos 1 = some (vga.colPos + 1) := add_nat_exact prof (by omega)
  have moved : copyWithin (vga.chars 24) (vga.colPos + 1) bufferWidth vga.colPos =
      some (shifted vga.colPos vga.chars 24) := by
    unfold bufferWidth
    rw [copyWithin, dif_pos (by omega)]
    congr 1
    funext i
    have bottom : (24 : Fin 25).val = 24 := rfl
    unfold shifted
    by_cases right : vga.colPos ≤ i.val ∧ i.val + 1 < 80
    · have source : vga.colPos + 1 + (i.val - vga.colPos) = i.val + 1 := by omega
      rw [dif_pos (by omega), dif_pos ⟨bottom, right⟩]
      congr 1
      exact Fin.ext source
    · rw [dif_neg (by omega), dif_neg (by omega)]
  have rows : Function.update vga.chars 24 (shifted vga.colPos vga.chars 24) =
      shifted vga.colPos vga.chars := by
    funext r
    by_cases bottom : r = 24
    · subst bottom
      rw [Function.update_self]
    · rw [Function.update_of_ne bottom]
      have upper : r.val ≠ 24 := fun same => bottom (Fin.ext same)
      funext i
      rw [shifted, dif_neg (by omega)]
  simp only [Vga.deleteCopy, next, moved, rows, Option.bind_eq_bind, Option.bind_some]

theorem erase_back_erased (prof : Profile) (vga : Vga) (inside : vga.colPos < 80)
    (positive : 0 < vga.colPos) : vga.eraseBack prof = some vga.erased := by
  have back : prof.subNat 32 vga.colPos 1 = some (vga.colPos - 1) :=
    sub_nat_exact prof positive (by omega)
  simp only [Vga.eraseBack, back, buffer_height_pred, Option.bind_eq_bind, Option.bind_some]
  exact write_cell_inside vga _ (by omega)

theorem putc_backspace (prof : Profile) (vga : Vga) (inside : vga.colPos < 80)
    (positive : 0 < vga.colPos) :
    vga.putc prof 0x08 = some { vga.erased with colPos := vga.colPos - 1 }.synced := by
  have back : prof.subNat 32 vga.erased.colPos 1 = some (vga.colPos - 1) :=
    sub_nat_exact prof positive (show vga.colPos < 2 ^ 32 by omega)
  have moved := update_cursor_synced prof { vga.erased with colPos := vga.colPos - 1 }
    (show vga.colPos - 1 < 80 by omega)
  rw [Vga.putc, if_neg (by decide), if_neg (by decide), if_pos rfl, if_pos positive]
  simp only [erase_back_erased prof vga inside positive, back, moved, buffer_height_pred,
    Option.bind_eq_bind, Option.bind_some]

theorem putc_delete (prof : Profile) (vga : Vga) (inside : vga.colPos < 80) :
    vga.putc prof 0x7f =
      some { vga with chars := deleted vga.curColor vga.colPos vga.chars } := by
  rw [Vga.putc, if_neg (by decide), if_neg (by decide), if_neg (by decide), if_pos rfl]
  simp only [delete_copy_shifted prof vga inside, buffer_height_pred, buffer_width_pred,
    Option.bind_eq_bind, Option.bind_some]
  exact write_cell_inside { vga with chars := shifted vga.colPos vga.chars } _ (by decide)

def Shows (c : Byte) : Prop := c ≠ 0x0a ∧ c ≠ 0x0d ∧ c ≠ 0x08 ∧ c ≠ 0x7f

theorem effect_keeps_crtc (vga : Vga) (c : Byte) : (vga.effect c).crtc = vga.crtc := by
  unfold Vga.effect
  split_ifs <;> rfl

theorem effect_character (vga : Vga) {c : Byte} (glyph : Shows c) :
    vga.effect c = if vga.colPos = 79 then (vga.placed c).fed
      else { vga.placed c with colPos := vga.colPos + 1 } := by
  rw [Vga.effect, if_neg glyph.1, if_neg glyph.2.1, if_neg glyph.2.2.1, if_neg glyph.2.2.2]

theorem quiet_iff {col : Nat} {c : Byte} :
    updatesCursor col c = false ↔ c = 0x7f ∨ (c = 0x08 ∧ col = 0) := by
  rw [updatesCursor, decide_eq_false_iff_not, not_and_or, not_not, not_not]

theorem updates_of_shows {col : Nat} {c : Byte} (glyph : Shows c) :
    updatesCursor col c = true :=
  decide_eq_true ⟨glyph.2.2.2, fun back => glyph.2.2.1 back.1⟩

theorem putc_character (prof : Profile) (vga : Vga) {c : Byte} (glyph : Shows c)
    (inside : vga.colPos < 80) :
    vga.putc prof c =
      some (if vga.colPos = 79 then (vga.placed c).fed
        else { vga.placed c with colPos := vga.colPos + 1 }).synced := by
  have written : vga.writeCell 24 vga.colPos { asciiCharacter := c, colorCode := vga.curColor } =
      some (vga.placed c) := write_cell_inside vga _ inside
  rw [Vga.putc, if_neg glyph.1, if_neg glyph.2.1, if_neg glyph.2.2.1, if_neg glyph.2.2.2]
  simp only [written, buffer_height_pred, Option.bind_eq_bind, Option.bind_some]
  by_cases full : vga.colPos = 79
  · rw [if_pos full, if_pos (show (vga.placed c).colPos = bufferWidth - 1 from full)]
    exact new_line_fed prof (vga.placed c)
  · have right : prof.addNat 32 (vga.placed c).colPos 1 = some (vga.colPos + 1) :=
      add_nat_exact prof (show vga.colPos + 1 < 2 ^ 32 by omega)
    have moved := update_cursor_synced prof { vga.placed c with colPos := vga.colPos + 1 }
      (show vga.colPos + 1 < 80 by omega)
    rw [if_neg full, if_neg (show ¬(vga.placed c).colPos = bufferWidth - 1 from full), right]
    exact moved

/-- The closed form of `putc`: no access is out of bounds, and the registers follow exactly when
the byte is one that refreshes them. -/
theorem putc_eq (prof : Profile) (vga : Vga) (c : Byte) (inside : vga.colPos < 80) :
    vga.putc prof c = some (vga.wrote c) := by
  by_cases feed : c = 0x0a
  · subst feed
    exact new_line_fed prof vga
  by_cases carriage : c = 0x0d
  · subst carriage
    exact update_cursor_synced prof { vga with colPos := 0 } (Nat.zero_lt_succ 79)
  by_cases back : c = 0x08
  · subst back
    by_cases first : vga.colPos = 0
    · simp [Vga.putc, Vga.wrote, Vga.effect, updatesCursor, first]
    · rw [putc_backspace prof vga inside (Nat.pos_of_ne_zero first)]
      simp [Vga.wrote, Vga.effect, updatesCursor, first]
  by_cases del : c = 0x7f
  · subst del
    exact putc_delete prof vga inside
  · have glyph : Shows c := ⟨feed, carriage, back, del⟩
    rw [putc_character prof vga glyph inside, Vga.wrote, updates_of_shows glyph, if_pos rfl,
      effect_character vga glyph]

theorem effect_col_lt (vga : Vga) (c : Byte) (inside : vga.colPos < 80) :
    (vga.effect c).colPos < 80 := by
  unfold Vga.effect
  split_ifs
  · exact Nat.zero_lt_succ 79
  · exact Nat.zero_lt_succ 79
  · exact inside
  · exact Nat.lt_of_le_of_lt (Nat.sub_le _ _) inside
  · exact inside
  · exact Nat.zero_lt_succ 79
  · exact show vga.colPos + 1 < 80 by omega

theorem effect_of_quiet (vga : Vga) {c : Byte} (quiet : updatesCursor vga.colPos c = false) :
    (vga.effect c).colPos = vga.colPos ∧ (vga.effect c).crtc = vga.crtc := by
  rcases quiet_iff.mp quiet with del | ⟨back, first⟩
  · subst del
    exact ⟨rfl, rfl⟩
  · subst back
    simp [Vga.effect, first]

def Vga.cursor (vga : Vga) : Nat :=
  256 * (vga.crtc.reg 0x0e).toNat + (vga.crtc.reg 0x0f).toNat

theorem synced_cursor (vga : Vga) (inside : vga.colPos < 80) :
    vga.synced.cursor = 24 * 80 + vga.synced.colPos := by
  have high : vga.synced.crtc.reg 0x0e = BitVec.ofNat 8 ((24 * 80 + vga.colPos) / 256) := by
    simp [Vga.synced, Crtc.located]
  have low : vga.synced.crtc.reg 0x0f = BitVec.ofNat 8 (24 * 80 + vga.colPos) := by
    simp [Vga.synced, Crtc.located]
  have col : vga.synced.colPos = vga.colPos := rfl
  rw [Vga.cursor, high, low, col, BitVec.toNat_ofNat, BitVec.toNat_ofNat]
  omega

def Tracks (vga : Vga) : Prop := vga.cursor = 24 * 80 + vga.colPos

/-- Some byte of the sequence refreshed the cursor, at the column it was written at. -/
def Refreshed (prof : Profile) (start : Vga) (s : List Byte) : Prop :=
  ∃ before c after mid, s = before ++ c :: after ∧ start.writeBytes prof before = some mid ∧
    updatesCursor mid.colPos c = true

theorem wrote_col (vga : Vga) (c : Byte) : (vga.wrote c).colPos = (vga.effect c).colPos := by
  unfold Vga.wrote
  split_ifs
  · rfl
  · rfl

theorem wrote_col_lt (vga : Vga) (c : Byte) (inside : vga.colPos < 80) :
    (vga.wrote c).colPos < 80 := by
  rw [wrote_col]
  exact effect_col_lt vga c inside

theorem wrote_tracks (vga : Vga) (c : Byte) (inside : vga.colPos < 80)
    (tracked : Tracks vga ∨ updatesCursor vga.colPos c = true) : Tracks (vga.wrote c) := by
  unfold Vga.wrote
  cases refresh : updatesCursor vga.colPos c with
  | true =>
      rw [if_pos rfl]
      exact synced_cursor _ (effect_col_lt vga c inside)
  | false =>
      obtain ⟨sameCol, sameCrtc⟩ := effect_of_quiet vga refresh
      rw [if_neg (by decide), Tracks, Vga.cursor, sameCrtc, sameCol]
      exact tracked.resolve_right (by rw [refresh]; decide)

theorem write_bytes_cons (prof : Profile) (vga : Vga) (c : Byte) (s : List Byte)
    (inside : vga.colPos < 80) :
    vga.writeBytes prof (c :: s) = (vga.wrote c).writeBytes prof s := by
  rw [Vga.writeBytes, List.foldlM_cons, putc_eq prof vga c inside]
  rfl

theorem write_bytes_run (prof : Profile) (s : List Byte) (vga : Vga) (inside : vga.colPos < 80) :
    ∃ final, vga.writeBytes prof s = some final ∧ final.colPos < 80 ∧
      (Tracks vga ∨ Refreshed prof vga s → Tracks final) := by
  induction s generalizing vga with
  | nil =>
      refine ⟨vga, rfl, inside, ?_⟩
      intro tracked
      rcases tracked with tracked | ⟨before, c, after, _, split, _⟩
      · exact tracked
      · cases before <;> cases split
  | cons c s ih =>
      obtain ⟨final, run, finalInside, tracks⟩ := ih (vga.wrote c) (wrote_col_lt vga c inside)
      refine ⟨final, by rw [write_bytes_cons prof vga c s inside, run], finalInside, ?_⟩
      intro tracked
      apply tracks
      rcases tracked with tracked | ⟨before, byte, after, mid, split, reached, refresh⟩
      · exact Or.inl (wrote_tracks vga c inside (Or.inl tracked))
      · cases before with
        | nil =>
            cases split
            cases reached
            exact Or.inl (wrote_tracks vga c inside (Or.inr refresh))
        | cons head before =>
            cases split
            rw [write_bytes_cons prof vga c before inside] at reached
            exact Or.inr ⟨before, byte, after, mid, rfl, reached, refresh⟩

/-- From the initial state, on any hardware state, every byte sequence is written without a failed
bound, the column stays below 80, and once a byte has refreshed the cursor the location registers
name the cell of the column. -/
theorem console_stays_in_bounds (prof : Profile) (chars : Screen) (crtc : Crtc) (s : List Byte) :
    ∃ final, (Vga.new chars crtc).writeBytes prof s = some final ∧ final.colPos < 80 ∧
      (Refreshed prof (Vga.new chars crtc) s → final.cursor = 24 * 80 + final.colPos) := by
  obtain ⟨final, run, inside, tracks⟩ :=
    write_bytes_run prof s (Vga.new chars crtc) (Nat.zero_lt_succ 79)
  exact ⟨final, run, inside, fun refreshed => tracks (Or.inr refreshed)⟩

theorem sample_console_tracks :
    Refreshed .debug (Vga.new (fun _ _ => blank 0) ⟨0, fun _ => 0⟩) [0x61, 0x62, 0x7f, 0x08] ∧
      ∃ final, (Vga.new (fun _ _ => blank 0) ⟨0, fun _ => 0⟩).writeBytes .debug
          [0x61, 0x62, 0x7f, 0x08] = some final ∧
        final.cursor = 24 * 80 + final.colPos := by
  have refreshed : Refreshed .debug (Vga.new (fun _ _ => blank 0) ⟨0, fun _ => 0⟩)
      [0x61, 0x62, 0x7f, 0x08] := ⟨[], 0x61, [0x62, 0x7f, 0x08], _, rfl, rfl, rfl⟩
  obtain ⟨final, run, _, tracks⟩ := console_stays_in_bounds .debug (fun _ _ => blank 0)
    ⟨0, fun _ => 0⟩ [0x61, 0x62, 0x7f, 0x08]
  exact ⟨refreshed, final, run, tracks refreshed⟩

end RondOS.Console

import RondOS.Kernel.Vga
import Mathlib.Data.List.OfFn

/-!
# What a written text looks like

The console scrolls in place, one byte at a time. `layOut` is the reference: it lays a whole text
out in rows of 80 cells, with no screen in sight, and the screen is the last 25 of all rows.
-/

namespace RondOS.VgaText

open ByteMemory RustWord Console

set_option autoImplicit false

def blankRow (color : ColorCode) : Row := fun _ => blank color

def place (row : Row) (col : Nat) (ch : ScreenChar) : Row :=
  fun i => if i.val = col then ch else row i

/-- The rows of a text that starts in row `current` at column `col`, and the column it ends in. A
new row is opened by a newline and right after a character in the last column. -/
def layOut (color : ColorCode) : Row → Nat → List Byte → List Row × Nat
  | current, col, [] => ([current], col)
  | current, col, b :: rest =>
      if b = 0x0a then
        let below := layOut color (blankRow color) 0 rest
        (current :: below.1, below.2)
      else
        let written := place current col { asciiCharacter := b, colorCode := color }
        if col = 79 then
          let below := layOut color (blankRow color) 0 rest
          (written :: below.1, below.2)
        else layOut color written (col + 1) rest

def PlainText (s : List Byte) : Prop := ∀ b ∈ s, b ≠ 0x08 ∧ b ≠ 0x0d ∧ b ≠ 0x7f

def lastRows (count : Nat) (rows : List Row) : List Row := rows.drop (rows.length - count)

def upperRows (chars : Screen) : List Row := List.ofFn fun i : Fin 24 => chars i.castSucc

theorem upper_rows_length (chars : Screen) : (upperRows chars).length = 24 := by
  simp [upperRows]

theorem screen_rows (chars : Screen) : List.ofFn chars = upperRows chars ++ [chars 24] := by
  rw [List.ofFn_succ', List.concat_eq_append]
  rfl

theorem upper_rows_scrolled (color : ColorCode) (chars : Screen) :
    chars 0 :: upperRows (scrolled color chars) = upperRows chars ++ [chars 24] := by
  have moved : upperRows (scrolled color chars) = List.ofFn fun i : Fin 24 => chars i.succ := by
    rw [upperRows]
    congr 1
    funext i
    funext j
    have upper : ¬(i.castSucc.val = 24 ∧ j.val < 80) := by
      rw [Fin.val_castSucc]
      omega
    rw [scrolled, cleared, if_neg upper, copied, dif_pos (by rw [Fin.val_castSucc]; omega)]
    rfl
  rw [moved, ← screen_rows]
  exact List.ofFn_succ.symm

theorem bottom_row_scrolled (color : ColorCode) (chars : Screen) :
    scrolled color chars 24 = blankRow color := by
  funext i
  rw [scrolled, cleared, if_pos ⟨rfl, i.isLt⟩]
  rfl

theorem upper_rows_set_cell (chars : Screen) (col : Nat) (ch : ScreenChar) :
    upperRows (setCell chars 24 col ch) = upperRows chars := by
  rw [upperRows, upperRows]
  congr 1
  funext i
  funext j
  have upper : ¬(i.castSucc.val = 24 ∧ j.val = col) := by
    rw [Fin.val_castSucc]
    omega
  rw [setCell, if_neg upper]

theorem bottom_row_set_cell (chars : Screen) (col : Nat) (ch : ScreenChar) :
    setCell chars 24 col ch 24 = place (chars 24) col ch := by
  funext j
  rw [setCell, place]
  by_cases hit : j.val = col
  · rw [if_pos ⟨rfl, hit⟩, if_pos hit]
  · rw [if_neg (fun both => hit both.2), if_neg hit]

theorem lay_out_nonempty (color : ColorCode) (s : List Byte) (current : Row) (col : Nat) :
    1 ≤ (layOut color current col s).1.length := by
  induction s generalizing current col with
  | nil => exact Nat.le_refl 1
  | cons b s ih =>
      rw [layOut]
      split_ifs
      · exact Nat.le_add_left _ _
      · exact Nat.le_add_left _ _
      · exact ih _ _

theorem last_rows_cons (row : Row) {rows : List Row} (enough : 25 ≤ rows.length) :
    lastRows 25 (row :: rows) = lastRows 25 rows := by
  have more : (row :: rows).length - 25 = rows.length - 25 + 1 := by
    rw [List.length_cons]
    omega
  rw [lastRows, more, List.drop_succ_cons, lastRows]

/-- The screen of `vga` shows the end of a text: the given upper rows and the laid-out rows. -/
def Displays (vga : Vga) (above : List Row) (laid : List Row × Nat) : Prop :=
  List.ofFn vga.chars = lastRows 25 (above ++ laid.1) ∧ vga.colPos = laid.2

theorem displays_below {vga : Vga} {chars : Screen} {color : ColorCode} {s : List Byte}
    (shown : Displays vga (upperRows (scrolled color chars)) (layOut color (blankRow color) 0 s)) :
    Displays vga (upperRows chars)
      (chars 24 :: (layOut color (blankRow color) 0 s).1, (layOut color (blankRow color) 0 s).2) := by
  have nonempty := lay_out_nonempty color s (blankRow color) 0
  have scrolledUp := upper_rows_scrolled color chars
  refine ⟨?_, shown.2⟩
  rw [shown.1, List.append_cons, ← scrolledUp, List.cons_append, last_rows_cons]
  rw [List.length_append, upper_rows_length]
  omega

theorem plain_cases {b : Byte} (plain : b ≠ 0x08 ∧ b ≠ 0x0d ∧ b ≠ 0x7f) :
    b = 0x0a ∨ Shows b := by
  by_cases feed : b = 0x0a
  · exact Or.inl feed
  · exact Or.inr ⟨feed, plain.2.1, plain.1, plain.2.2⟩

theorem lay_out_step (prof : Profile) (vga : Vga) (b : Byte) (s : List Byte)
    (inside : vga.colPos < 80) (plain : b ≠ 0x08 ∧ b ≠ 0x0d ∧ b ≠ 0x7f) :
    ∃ next, vga.putc prof b = some next ∧ next.colPos < 80 ∧ next.curColor = vga.curColor ∧
      ∀ final, Displays final (upperRows next.chars)
          (layOut vga.curColor (next.chars 24) next.colPos s) →
        Displays final (upperRows vga.chars)
          (layOut vga.curColor (vga.chars 24) vga.colPos (b :: s)) := by
  rcases plain_cases plain with feed | glyph
  · subst feed
    refine ⟨vga.fed.synced, new_line_fed prof vga, Nat.zero_lt_succ 79, rfl, ?_⟩
    intro final shown
    rw [layOut, if_pos rfl]
    have bottom : vga.fed.synced.chars 24 = blankRow vga.curColor :=
      bottom_row_scrolled vga.curColor vga.chars
    rw [bottom] at shown
    exact displays_below shown
  · have bottom : (vga.placed b).chars 24 = place (vga.chars 24) vga.colPos
        { asciiCharacter := b, colorCode := vga.curColor } := bottom_row_set_cell _ _ _
    have above : upperRows (vga.placed b).chars = upperRows vga.chars := upper_rows_set_cell _ _ _
    have written := putc_character prof vga glyph inside
    by_cases full : vga.colPos = 79
    · rw [if_pos full] at written
      refine ⟨(vga.placed b).fed.synced, written, Nat.zero_lt_succ 79, rfl, ?_⟩
      intro final shown
      have blankBottom : (vga.placed b).fed.synced.chars 24 = blankRow vga.curColor :=
        bottom_row_scrolled vga.curColor (vga.placed b).chars
      rw [blankBottom] at shown
      have moved := displays_below shown
      rw [above, bottom] at moved
      rw [layOut, if_neg glyph.1, if_pos full]
      exact moved
    · rw [if_neg full] at written
      refine ⟨_, written, show vga.colPos + 1 < 80 by omega, rfl, ?_⟩
      intro final shown
      rw [layOut, if_neg glyph.1, if_neg full, ← bottom, ← above]
      exact shown

/-- A plain text of any length, written at any column of any screen, shows as the reference lays it
out: the screen holds the last 25 of the old upper rows and the rows of the text. -/
theorem write_bytes_lays_out (prof : Profile) (s : List Byte) (vga : Vga)
    (inside : vga.colPos < 80) (plain : PlainText s) :
    ∃ final, vga.writeBytes prof s = some final ∧ final.curColor = vga.curColor ∧
      List.ofFn final.chars = lastRows 25 (upperRows vga.chars ++
        (layOut vga.curColor (vga.chars 24) vga.colPos s).1) ∧
      final.colPos = (layOut vga.curColor (vga.chars 24) vga.colPos s).2 := by
  induction s generalizing vga with
  | nil =>
      refine ⟨vga, rfl, rfl, ?_, rfl⟩
      have length : (upperRows vga.chars ++ [vga.chars 24]).length - 25 = 0 := by
        simp [upper_rows_length]
      rw [layOut, lastRows, length, List.drop_zero, screen_rows]
  | cons b s ih =>
      obtain ⟨next, stepped, nextInside, color, carries⟩ := lay_out_step prof vga b s inside
        (plain b List.mem_cons_self)
      obtain ⟨final, run, finalColor, shown⟩ := ih next nextInside
        fun later member => plain later (List.mem_cons_of_mem b member)
      rw [color] at shown finalColor
      refine ⟨final, ?_, finalColor, carries final shown⟩
      rw [Vga.writeBytes, List.foldlM_cons, stepped]
      exact run

theorem sample_text_laid_out :
    PlainText [0x0a, 0x61] ∧
      ∃ final, { Vga.new (fun _ _ => blank 7) ⟨0, fun _ => 0⟩ with colPos := 5 }.writeBytes .release
          [0x0a, 0x61] = some final ∧ final.colPos = 1 := by
  have plain : PlainText [0x0a, 0x61] := by
    unfold PlainText
    decide
  obtain ⟨final, run, _, _, col⟩ := write_bytes_lays_out .release [0x0a, 0x61]
    { Vga.new (fun _ _ => blank 7) ⟨0, fun _ => 0⟩ with colPos := 5 } (by decide) plain
  exact ⟨plain, final, run, col⟩

end RondOS.VgaText

import Mathlib.Tactic

/-! # Scrolling terminals

The text of a terminal is a list of rows that grows without bound: a row ends at a newline, or where it is full. A
terminal of `h` rows and `w` columns shows the last rows of its text. `Shows` relates the position and the contents of a
device to the text, and the rules say what a device has to do for the next character.
-/
namespace Borgos.Foundations
set_option autoImplicit false

variable {α β : Type}

/-- The rows that have ended, and the one that has not. -/
structure Text (α : Type) where
  ended : List (List α)
  last : List α

namespace Text

def empty : Text α := ⟨[], []⟩

def newline (t : Text α) : Text α := ⟨t.ended ++ [t.last], []⟩

def put (t : Text α) (a : α) : Text α := ⟨t.ended, t.last ++ [a]⟩

/-- The next character, in rows of `w` columns; `none` is a newline. -/
def next (w : ℕ) (t : Text α) : Option α → Text α
  | none => t.newline
  | some a => if w ≤ (t.put a).last.length then (t.put a).newline else t.put a

/-- The text of a sequence of characters. -/
def ofInputs (w : ℕ) (l : List (Option α)) : Text α := l.foldl (next w) empty

def rows (t : Text α) : List (List α) := t.ended ++ [t.last]

/-- The row that a terminal of `h` rows shows at its top. -/
def top (h : ℕ) (t : Text α) : ℕ := t.rows.length - h

/-- What a terminal of `h` rows shows in row `r` and column `c`. -/
def cell (h : ℕ) (blank : α) (t : Text α) (r c : ℕ) : α := (t.rows.getD (t.top h + r) []).getD c blank

/-- The row of the cursor. -/
def cursor (h : ℕ) (t : Text α) : ℕ := t.ended.length - t.top h

variable {t : Text α} {h w : ℕ}

theorem length_rows (t : Text α) : t.rows.length = t.ended.length + 1 := by
  simp [rows]

theorem cursor_lt (hh : 0 < h) (t : Text α) : t.cursor h < h := by
  unfold cursor top
  rw [length_rows]
  omega

theorem length_last_next (hw : 0 < w) (x : Option α) : (t.next w x).last.length < w := by
  cases x with
  | none => exact hw
  | some a =>
    simp only [next]
    split_ifs with hfull
    · exact hw
    · exact Nat.lt_of_not_le hfull

theorem rows_getD (t : Text α) (i : ℕ) :
    t.rows.getD i [] = if i = t.ended.length then t.last else t.ended.getD i [] := by
  unfold rows
  simp only [List.getD_eq_getElem?_getD, List.getElem?_append]
  split_ifs with hlt heq heq
  · omega
  · rfl
  · simp [heq]
  · have hone : [t.last].length ≤ i - t.ended.length := by
      rw [List.length_singleton]
      omega
    rw [List.getElem?_eq_none hone, List.getElem?_eq_none (Nat.le_of_not_lt hlt)]

theorem rows_newline (t : Text α) (i : ℕ) : t.newline.rows.getD i [] = t.rows.getD i [] := by
  have hrows : t.newline.rows = t.rows ++ [[]] := rfl
  rw [hrows]
  simp only [List.getD_eq_getElem?_getD, List.getElem?_append]
  split_ifs with hlt
  · rfl
  · rw [List.getElem?_eq_none (Nat.le_of_not_lt hlt)]
    cases i - t.rows.length <;> rfl

/-- The character is where the cursor was, and nothing else moves. -/
theorem cell_put (t : Text α) (blank a : α) (r c : ℕ) : (t.put a).cell h blank r c =
    if t.top h + r = t.ended.length ∧ c = t.last.length then a else t.cell h blank r c := by
  have htop : (t.put a).top h = t.top h := by
    simp only [top, length_rows, put]
  have hended : (t.put a).ended = t.ended := rfl
  unfold cell
  rw [htop, rows_getD, rows_getD, hended]
  by_cases hrow : t.top h + r = t.ended.length
  · rw [if_pos hrow, if_pos hrow]
    simp only [put, List.getD_eq_getElem?_getD, hrow, true_and]
    split_ifs with hcol
    · simp [hcol]
    · rw [List.getElem?_append]
      split_ifs with hlt
      · rfl
      · have hone : [a].length ≤ c - t.last.length := by
          rw [List.length_singleton]
          omega
        rw [List.getElem?_eq_none hone, List.getElem?_eq_none (Nat.le_of_not_lt hlt)]
  · rw [if_neg hrow, if_neg hrow, if_neg fun h => hrow h.1]

/-- Below the rows there is room: the rows stay. -/
theorem cell_newline_below (ht : t.cursor h + 1 < h) (blank : α) (r c : ℕ) :
    t.newline.cell h blank r c = t.cell h blank r c := by
  unfold cursor top at ht
  rw [length_rows] at ht
  have htop : t.newline.top h = t.top h := by
    simp only [top, length_rows, newline, List.length_append, List.length_singleton]
    omega
  unfold cell
  rw [htop, rows_newline]

/-- There is none: the rows move up, and the last one is blank. -/
theorem cell_newline_scroll (ht : t.cursor h + 1 = h) (blank : α) (r c : ℕ) (hr : r < h) :
    t.newline.cell h blank r c = if r + 1 < h then t.cell h blank (r + 1) c else blank := by
  unfold cursor top at ht
  rw [length_rows] at ht
  have htop : t.newline.top h = t.top h + 1 := by
    simp only [top, length_rows, newline, List.length_append, List.length_singleton]
    omega
  unfold cell
  rw [htop, rows_newline, Nat.add_right_comm, Nat.add_assoc]
  split_ifs with hlt
  · rfl
  · have hout : t.rows.length ≤ t.top h + (r + 1) := by
      unfold top
      rw [length_rows]
      omega
    have hrow : t.rows.getD (t.top h + (r + 1)) [] = [] := by
      rw [List.getD_eq_getElem?_getD, List.getElem?_eq_none hout]
      rfl
    rw [hrow]
    rfl

end Text

/-! ## Devices -/

/-- A device that shows the text: `Displays r c a` says that it shows `a` in row `r` and column `c`. -/
structure Shows (h w : ℕ) (blank : α) (row col : ℕ) (Displays : ℕ → ℕ → α → Prop) (t : Text α) : Prop where
  row_eq : row = t.cursor h
  col_eq : col = t.last.length
  cells : ∀ r < h, ∀ c < w, Displays r c (t.cell h blank r c)

section Rules
variable {h w : ℕ} {blank : α} {row col : ℕ} {D D' : ℕ → ℕ → α → Prop} {t : Text α}

theorem shows_empty (hblank : ∀ r < h, ∀ c < w, D r c blank) : Shows h w blank 0 0 D Text.empty where
  row_eq := by
    simp [Text.cursor, Text.empty]
  col_eq := rfl
  cells r hr c hc := by
    have hcell : (Text.empty : Text α).cell h blank r c = blank := by
      unfold Text.cell
      rw [Text.rows_getD]
      split_ifs <;> rfl
    rw [hcell]
    exact hblank r hr c hc

namespace Shows

/-- A character is displayed at the position, and the position moves on. -/
theorem put (hs : Shows h w blank row col D t) {a : α} (hnew : D' row col a)
    (hold : ∀ r < h, ∀ c < w, r ≠ row ∨ c ≠ col → ∀ x, D r c x → D' r c x) :
    Shows h w blank row (col + 1) D' (t.put a) where
  row_eq := by
    rw [hs.row_eq]
    simp only [Text.cursor, Text.top, Text.length_rows, Text.put]
  col_eq := by
    rw [hs.col_eq]
    simp [Text.put]
  cells r hr c hc := by
    rw [Text.cell_put]
    have hrow := hs.row_eq
    unfold Text.cursor Text.top at hrow
    rw [Text.length_rows] at hrow
    split_ifs with hpos
    · have hreq : r = row := by
        have hpos := hpos.1
        unfold Text.top at hpos
        rw [Text.length_rows] at hpos
        omega
      rw [hreq, hpos.2, ← hs.col_eq]
      exact hnew
    · apply hold r hr c hc ?_ _ (hs.cells r hr c hc)
      by_contra hnot
      rw [not_or, not_ne_iff, not_ne_iff] at hnot
      apply hpos
      unfold Text.top
      rw [Text.length_rows, ← hs.col_eq]
      exact ⟨by omega, hnot.2⟩

/-- A newline with room below. -/
theorem newline (hs : Shows h w blank row col D t) (hroom : row + 1 < h)
    (hold : ∀ r < h, ∀ c < w, ∀ x, D r c x → D' r c x) : Shows h w blank (row + 1) 0 D' t.newline where
  row_eq := by
    rw [hs.row_eq] at hroom ⊢
    unfold Text.cursor Text.top at hroom ⊢
    simp only [Text.length_rows, Text.newline, List.length_append, List.length_singleton] at hroom ⊢
    omega
  col_eq := rfl
  cells r hr c hc := by
    rw [hs.row_eq] at hroom
    rw [Text.cell_newline_below hroom]
    exact hold r hr c hc _ (hs.cells r hr c hc)

/-- A newline with none: all rows move up. -/
theorem scroll (hs : Shows h w blank row col D t) (hroom : row + 1 = h)
    (hup : ∀ r, r + 1 < h → ∀ c < w, ∀ x, D (r + 1) c x → D' r c x) (hblank : ∀ c < w, D' (h - 1) c blank) :
    Shows h w blank (h - 1) 0 D' t.newline where
  row_eq := by
    rw [hs.row_eq] at hroom
    unfold Text.cursor Text.top at hroom ⊢
    simp only [Text.length_rows, Text.newline, List.length_append, List.length_singleton] at hroom ⊢
    omega
  col_eq := rfl
  cells r hr c hc := by
    rw [hs.row_eq] at hroom
    rw [Text.cell_newline_scroll hroom blank r c hr]
    split_ifs with hlt
    · exact hup r hlt c hc _ (hs.cells (r + 1) hlt c hc)
    · have hlast : r = h - 1 := by omega
      rw [hlast]
      exact hblank c hc

end Shows

/-! ## Runs -/

/-- A device that follows the text with each character follows it with every sequence of them. -/
theorem shows_run {σ ι : Type} (step : σ → ι → Option σ) (input : ι → Option α) (I : σ → Text α → Prop) (l : List ι)
    (hstep : ∀ x ∈ l, ∀ s t, I s t → ∃ s', step s x = some s' ∧ I s' (t.next w (input x))) :
    ∀ s t, I s t → ∃ s', l.foldlM step s = some s' ∧ I s' ((l.map input).foldl (Text.next w) t) := by
  induction l with
  | nil => exact fun s t hI => ⟨s, rfl, hI⟩
  | cons x l ih =>
    intro s t hI
    obtain ⟨s', hs', hI'⟩ := hstep x List.mem_cons_self s t hI
    obtain ⟨s'', hs'', hI''⟩ := ih (fun x' hx' => hstep x' (List.mem_cons_of_mem x hx')) s' _ hI'
    refine ⟨s'', ?_, hI''⟩
    rw [List.foldlM_cons, hs']
    exact hs''

end Rules
end Borgos.Foundations

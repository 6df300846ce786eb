import Ape.Proofs.TtyEcho

/-!
# `Ape.Proofs.TtyCursor`: the cursor of the tracker

The tracker of `ape/tty/ansi.rs` follows the cursor through callbacks, on a row and a column of 16
bits. Its sums saturate and its moves are clamped to the window, apart from the sums of a tab, which
are plain (`tabSums`).

`perform_inside` says that the cursor stays in the window through every callback, whatever a sum
does. `cursor_steady_iff` says when the plain sums are exact and a tab does not move the cursor
left, over every run of callbacks: when no tab comes in the last seven columns that 16 bits can
count.
-/

set_option autoImplicit false

namespace Ape

variable {A : AnsiParser}

/-- The cursor is in the window. -/
structure Inside (s : TtyCompatState A) : Prop where
  rowPos : 1 ≤ s.cursorRow.toNat
  rowMax : s.cursorRow.toNat ≤ max s.winsize.rows.toNat 1
  colPos : 1 ≤ s.cursorCol.toNat
  colMax : s.cursorCol.toNat ≤ max s.winsize.cols.toNat 1

/-- The callback is a horizontal tab. -/
def Perform.isTab : Perform → Bool
  | .execute byte => byte = 0x09
  | _ => false

/-- The values of the plain operations of a tab at the column `col`, in the order of the source. The
last one is where the cursor goes. -/
def tabSums {α : Type} [Add α] [Sub α] [Mul α] [Div α] [OfNat α 1] [OfNat α 8] (col : α) : List α :=
  [col - 1, (col - 1) / 8, (col - 1) / 8 + 1, ((col - 1) / 8 + 1) * 8, ((col - 1) / 8 + 1) * 8 + 1]

/-- What one callback may do: the cursor is in the window after it, a tab goes to the last of its
sums, none of these leaves the 16 bits, so that they are those of integers, and a tab does not move
the cursor left. -/
structure Steady (s : TtyCompatState A) (p : Perform) : Prop where
  inside : Inside (perform s p)
  goes : p.isTab = true → (tabSums s.cursorCol).getLast?.map (clampCol s)
    = some (perform s p).cursorCol
  exact : p.isTab = true → ∀ x ∈ tabSums (s.cursorCol.toNat : Int), 0 ≤ x ∧ x < 2 ^ 16
  agree : p.isTab = true →
    (tabSums s.cursorCol).map (fun x => (x.toNat : Int)) = tabSums (s.cursorCol.toNat : Int)
  ahead : p.isTab = true → s.cursorCol ≤ (perform s p).cursorCol

/-! ### Values of the operations -/

/-- The smaller of two words. -/
theorem toNat_min16 (a b : UInt16) : (min a b).toNat = min a.toNat b.toNat := by
  show (if a ≤ b then a else b).toNat = _
  split <;> rename_i h <;> rw [UInt16.le_iff_toNat_le] at h <;> omega

/-- The larger of two words. -/
theorem toNat_max16 (a b : UInt16) : (max a b).toNat = max a.toNat b.toNat := by
  show (if a ≤ b then b else a).toNat = _
  split <;> rename_i h <;> rw [UInt16.le_iff_toNat_le] at h <;> omega

/-- A saturating sum of words. -/
theorem toNat_satAdd16 (a b : UInt16) : (satAdd16 a b).toNat = min (a.toNat + b.toNat) 65535 := by
  unfold satAdd16
  split
  · rename_i h
    rw [UInt16.toNat_add, Nat.mod_eq_of_lt h]
    omega
  · show 65535 = _
    omega

section Clamp

variable (s : TtyCompatState A) (x : UInt16)

/-- A row is brought between the first and the last one. -/
theorem toNat_clampRow :
    (clampRow s x).toNat = min (max x.toNat 1) (max s.winsize.rows.toNat 1) := by
  unfold clampRow rowsMax
  rw [toNat_min16, toNat_max16, toNat_max16]
  rfl

/-- A column is brought between the first and the last one. -/
theorem toNat_clampCol :
    (clampCol s x).toNat = min (max x.toNat 1) (max s.winsize.cols.toNat 1) := by
  unfold clampCol colsMax
  rw [toNat_min16, toNat_max16, toNat_max16]
  rfl

end Clamp

/-! ### One callback -/

section Moves

variable {s : TtyCompatState A}

/-- A choice stays on the screen when each branch that can be taken does. -/
theorem Inside.ite {p : Prop} [Decidable p] {t e : TtyCompatState A} (ht : p → Inside t)
    (he : ¬ p → Inside e) : Inside (if p then t else e) := by
  by_cases hp : p
  · rw [if_pos hp]
    exact ht hp
  · rw [if_neg hp]
    exact he hp

/-- A row and a column that are clamped, or that the cursor had. -/
theorem Inside.move (h : Inside s) {row col : UInt16}
    (hrow : row = s.cursorRow ∨ row = 1 ∨ ∃ x, row = clampRow s x)
    (hcol : col = s.cursorCol ∨ col = 1 ∨ ∃ x, col = clampCol s x) :
    Inside (moveCursor s row col) := by
  have hrow' : 1 ≤ row.toNat ∧ row.toNat ≤ max s.winsize.rows.toNat 1 := by
    rcases hrow with rfl | rfl | ⟨x, rfl⟩
    · exact ⟨h.rowPos, h.rowMax⟩
    · exact ⟨le_rfl, le_max_right _ _⟩
    · rw [toNat_clampRow]
      omega
  have hcol' : 1 ≤ col.toNat ∧ col.toNat ≤ max s.winsize.cols.toNat 1 := by
    rcases hcol with rfl | rfl | ⟨x, rfl⟩
    · exact ⟨h.colPos, h.colMax⟩
    · exact ⟨le_rfl, le_max_right _ _⟩
    · rw [toNat_clampCol]
      omega
  exact ⟨hrow'.1, hrow'.2, hcol'.1, hcol'.2⟩

/-- A printed character keeps the cursor on the screen. -/
theorem handlePrintable_inside (h : Inside s) : Inside (handlePrintable s) := by
  unfold handlePrintable
  dsimp only
  refine Inside.ite (fun _ => h.move (.inr (.inr ⟨_, rfl⟩)) (.inr (.inl rfl))) ?_
  intro hfits
  -- the column is not past the window
  rw [UInt16.lt_iff_toNat_lt, toNat_satAdd16] at hfits
  have hmax : (colsMax s).toNat = max s.winsize.cols.toNat 1 := toNat_max16 _ _
  have hone : (1 : UInt16).toNat = 1 := rfl
  have hcol : (satAdd16 s.cursorCol 1).toNat = min (s.cursorCol.toNat + 1) 65535 :=
    toNat_satAdd16 _ _
  refine ⟨h.rowPos, h.rowMax, ?_, ?_⟩
  · show 1 ≤ (satAdd16 s.cursorCol 1).toNat
    omega
  · show (satAdd16 s.cursorCol 1).toNat ≤ max s.winsize.cols.toNat 1
    omega

/-- A control character keeps the cursor on the screen. -/
theorem execute_inside (h : Inside s) (byte : UInt8) : Inside (execute s byte) := by
  unfold execute
  refine Inside.ite (fun _ => h.move (.inr (.inr ⟨_, rfl⟩)) (.inr (.inl rfl))) fun _ => ?_
  refine Inside.ite (fun _ => h.move (.inl rfl) (.inr (.inl rfl))) fun _ => ?_
  refine Inside.ite (fun _ => h.move (.inl rfl) (.inr (.inr ⟨_, rfl⟩))) fun _ => ?_
  exact Inside.ite (fun _ => h.move (.inl rfl) (.inr (.inr ⟨_, rfl⟩))) fun _ => h

/-- A cursor sequence keeps the cursor on the screen. -/
theorem csiMove_inside (h : Inside s) (params : List (List UInt16)) (action : UInt8) :
    Inside (csiMove s params action) := by
  unfold csiMove
  dsimp only
  refine Inside.ite (fun _ => h.move (.inr (.inr ⟨_, rfl⟩)) (.inr (.inr ⟨_, rfl⟩))) fun _ => ?_
  refine Inside.ite (fun _ => h.move (.inr (.inr ⟨_, rfl⟩)) (.inl rfl)) fun _ => ?_
  refine Inside.ite (fun _ => h.move (.inr (.inr ⟨_, rfl⟩)) (.inl rfl)) fun _ => ?_
  refine Inside.ite (fun _ => h.move (.inl rfl) (.inr (.inr ⟨_, rfl⟩))) fun _ => ?_
  refine Inside.ite (fun _ => h.move (.inl rfl) (.inr (.inr ⟨_, rfl⟩))) fun _ => ?_
  refine Inside.ite (fun _ => h.move (.inr (.inr ⟨_, rfl⟩)) (.inr (.inl rfl))) fun _ => ?_
  refine Inside.ite (fun _ => h.move (.inr (.inr ⟨_, rfl⟩)) (.inr (.inl rfl))) fun _ => ?_
  refine Inside.ite (fun _ => h.move (.inl rfl) (.inr (.inr ⟨_, rfl⟩))) fun _ => ?_
  refine Inside.ite (fun _ => h.move (.inr (.inr ⟨_, rfl⟩)) (.inl rfl)) fun _ => ?_
  refine Inside.ite (fun _ => ⟨h.rowPos, h.rowMax, h.colPos, h.colMax⟩) fun _ => ?_
  exact Inside.ite (fun _ => h.move (.inr (.inr ⟨_, rfl⟩)) (.inr (.inr ⟨_, rfl⟩))) fun _ => h

/-- An escape sequence keeps the cursor on the screen. -/
theorem escMove_inside (h : Inside s) (byte : UInt8) : Inside (escMove s byte) := by
  unfold escMove
  refine Inside.ite (fun _ => ⟨h.rowPos, h.rowMax, h.colPos, h.colMax⟩) fun _ => ?_
  refine Inside.ite (fun _ => h.move (.inr (.inr ⟨_, rfl⟩)) (.inr (.inr ⟨_, rfl⟩))) fun _ => ?_
  refine Inside.ite (fun _ => h.move (.inr (.inr ⟨_, rfl⟩)) (.inl rfl)) fun _ => ?_
  refine Inside.ite (fun _ => h.move (.inr (.inr ⟨_, rfl⟩)) (.inr (.inl rfl))) fun _ => ?_
  refine Inside.ite (fun _ => h.move (.inr (.inr ⟨_, rfl⟩)) (.inl rfl)) fun _ => ?_
  refine Inside.ite (fun _ => ?_) fun _ => h
  exact ⟨le_rfl, le_max_right _ _, le_rfl, le_max_right _ _⟩

/-- What is put in the input leaves the cursor. -/
theorem Inside.respond (h : Inside s) (bytes : List UInt8) : Inside (respond s bytes) :=
  ⟨h.rowPos, h.rowMax, h.colPos, h.colMax⟩

/-- Every callback leaves the cursor in the window. -/
theorem perform_inside (h : Inside s) (p : Perform) : Inside (perform s p) := by
  cases p with
  | print c => exact handlePrintable_inside h
  | execute byte => exact execute_inside h byte
  | csiDispatch params intermediates ignore action =>
    exact (csiMove_inside h params action).respond _
  | escDispatch intermediates ignore byte => exact (escMove_inside h byte).respond _
  | hook params intermediates ignore action => exact h
  | put byte => exact h
  | unhook => exact h
  | oscDispatch params bellTerminated => exact h

/-! ### Tabs -/

/-- The tab is the only action of its kind. -/
theorem Perform.eq_tab {p : Perform} (h : p.isTab = true) : p = .execute 0x09 := by
  cases p with
  | execute byte => exact congrArg Perform.execute (of_decide_eq_true h)
  | _ => cases h

/-- The sums of a tab are exact when its column is not one of the last seven. -/
theorem tabSums_exact_iff {col : Nat} (hpos : 1 ≤ col) :
    (∀ x ∈ tabSums (col : Int), 0 ≤ x ∧ x < 2 ^ 16) ↔ col < 65529 := by
  simp only [tabSums, List.forall_mem_cons, List.not_mem_nil, false_imp_iff, implies_true, and_true]
  constructor
  · rintro ⟨-, -, -, -, -, hlast⟩
    omega
  · intro hlt
    omega

/-- The sums of a tab, in 16 bits. -/
theorem toNat_tabSums {col : UInt16} (hpos : 1 ≤ col.toNat) (hlt : col.toNat < 65529) :
    (tabSums col).map UInt16.toNat = tabSums col.toNat := by
  have hone : (1 : UInt16).toNat = 1 := rfl
  have height : (8 : UInt16).toNat = 8 := rfl
  have hsub : (col - 1).toNat = col.toNat - 1 := UInt16.toNat_sub_of_le _ _ hpos
  have hdiv : ((col - 1) / 8).toNat = (col.toNat - 1) / 8 := by
    rw [UInt16.toNat_div, hsub, height]
  have hadd : ((col - 1) / 8 + 1).toNat = (col.toNat - 1) / 8 + 1 := by
    rw [UInt16.toNat_add, hdiv, hone, Nat.mod_eq_of_lt (by omega)]
  have hmul : (((col - 1) / 8 + 1) * 8).toNat = ((col.toNat - 1) / 8 + 1) * 8 := by
    rw [UInt16.toNat_mul, hadd, height, Nat.mod_eq_of_lt (by omega)]
  have hlast : (((col - 1) / 8 + 1) * 8 + 1).toNat = ((col.toNat - 1) / 8 + 1) * 8 + 1 := by
    rw [UInt16.toNat_add, hmul, hone, Nat.mod_eq_of_lt (by omega)]
  simp only [tabSums, List.map_cons, List.map_nil, hsub, hdiv, hadd, hmul, hlast]

/-- The column of the next tab stop. -/
theorem toNat_nextTab {col : UInt16} (hpos : 1 ≤ col.toNat) (hlt : col.toNat < 65529) :
    (((col - 1) / 8 + 1) * 8 + 1).toNat = ((col.toNat - 1) / 8 + 1) * 8 + 1 := by
  have hsums := congrArg List.getLast? (toNat_tabSums hpos hlt)
  exact Option.some.inj hsums

/-- The sums of a tab are those of integers. -/
theorem tabSums_agree {col : UInt16} (hpos : 1 ≤ col.toNat) (hlt : col.toNat < 65529) :
    (tabSums col).map (fun x => (x.toNat : Int)) = tabSums (col.toNat : Int) := by
  have hcast : (col.toNat : Int) - 1 = ((col.toNat - 1 : Nat) : Int) :=
    (Int.natCast_pred_of_pos hpos).symm
  calc (tabSums col).map (fun x => (x.toNat : Int))
      = ((tabSums col).map UInt16.toNat).map (fun n : Nat => (n : Int)) := by rw [List.map_map]; rfl
    _ = (tabSums col.toNat).map (fun n : Nat => (n : Int)) := by rw [toNat_tabSums hpos hlt]
    _ = tabSums (col.toNat : Int) := by simp [tabSums, hcast]

/-- A tab with exact sums does not move the cursor left. -/
theorem tab_ahead (h : Inside s) (hlt : s.cursorCol.toNat < 65529) :
    s.cursorCol ≤ (execute s 0x09).cursorCol := by
  have hnext := toNat_nextTab h.colPos hlt
  have hclamp := toNat_clampCol s (((s.cursorCol - 1) / 8 + 1) * 8 + 1)
  have hmax := h.colMax
  show s.cursorCol ≤ clampCol s (((s.cursorCol - 1) / 8 + 1) * 8 + 1)
  rw [UInt16.le_iff_toNat_le, hclamp, hnext]
  omega

/-- One callback: only a tab in the last seven columns is not steady. -/
theorem steady_iff (h : Inside s) (p : Perform) :
    Steady s p ↔ (p.isTab = true → s.cursorCol.toNat < 65529) := by
  constructor
  · intro hsteady htab
    exact (tabSums_exact_iff h.colPos).mp (hsteady.exact htab)
  · intro hlt
    refine ⟨perform_inside h p, ?_, fun htab => (tabSums_exact_iff h.colPos).mpr (hlt htab),
      fun htab => tabSums_agree h.colPos (hlt htab), ?_⟩
    · intro htab
      rw [Perform.eq_tab htab]
      rfl
    · intro htab
      rw [Perform.eq_tab htab]
      exact tab_ahead h (hlt htab)

end Moves

/-! ### Runs of callbacks -/

/-- Actions of the parser keep the cursor on the screen. -/
theorem performs_inside (ps : List Perform) {s : TtyCompatState A} (h : Inside s) :
    Inside (ps.foldl perform s) := by
  induction ps generalizing s with
  | nil => exact h
  | cons p ps ih => exact ih (perform_inside h p)

/-- From a cursor in the window, every callback of a run is steady exactly when no tab comes at a
column from 65529 on. -/
theorem cursor_steady_iff (s : TtyCompatState A) (h : Inside s) (ps : List Perform) :
    (∀ front p back, ps = front ++ p :: back → Steady (front.foldl perform s) p) ↔
      ∀ front back, ps = front ++ .execute 0x09 :: back →
        (front.foldl perform s).cursorCol.toNat < 65529 := by
  constructor
  · intro hsteady front back hps
    exact (steady_iff (performs_inside front h) _).mp (hsteady front _ back hps) rfl
  · intro hlt front p back hps
    refine (steady_iff (performs_inside front h) p).mpr ?_
    intro htab
    rw [Perform.eq_tab htab] at hps
    exact hlt front back hps

/-- A terminal with a window of 65535 columns. -/
def wideTty : TtyCompatState sampleParser := { TtyCompatState.default sampleParser with
  winsize := ⟨25, 65535, 0, 0⟩ }

/-- A tab after the move to column 65529. -/
def wideRun : List Perform := [.csiDispatch [[65529]] [] false 0x47, .execute 0x09]

/-- A tab at the first column of a new terminal, and what is printed before it. -/
theorem cursor_steady_iff_default :
    Steady (perform (.default sampleParser) (.print 'a')) (.execute 0x09) := by
  refine (cursor_steady_iff (.default sampleParser) ⟨by decide, by decide, by decide, by decide⟩
    [.print 'a', .execute 0x09]).mpr ?_ [.print 'a'] (.execute 0x09) [] rfl
  rintro (_ | ⟨p, _ | ⟨q, front⟩⟩) back hps
  · cases hps
  · cases hps
    decide
  · simp at hps

/-- In the last seven columns the sums of a tab leave the 16 bits, and the cursor goes to the
left. -/
theorem tab_moves_cursor_left :
    Inside wideTty ∧ wideTty.winsize.cols = 65535 ∧
    ((wideRun.take 1).foldl perform wideTty).cursorCol = 65529 ∧
    (wideRun.foldl perform wideTty).cursorCol = 1 ∧
    ¬ ∀ front p back, wideRun = front ++ p :: back → Steady (front.foldl perform wideTty) p := by
  refine ⟨⟨by decide, by decide, by decide, by decide⟩, rfl, by decide, by decide, ?_⟩
  intro hsteady
  have hahead := (hsteady (wideRun.take 1) (.execute 0x09) [] rfl).ahead rfl
  revert hahead
  decide

end Ape

import Mathlib

/-! Lines of a list, and a collector that hands on what it holds at every separator and at
every flush. -/
namespace Lines

variable {α : Type} {sep : α}

/-- Nothing has been written since the last separator. -/
def AtStart (sep : α) (l : List α) : Prop := l = [] ∨ l.getLast? = some sep

theorem atStart_of_notMem {l : List α} (hl : sep ∉ l) : AtStart sep l ↔ l = [] := by
  constructor
  · rintro (hnil | hlast)
    · exact hnil
    · exact absurd (List.mem_of_getLast? hlast) hl
  · exact Or.inl

theorem atStart_line (l r : List α) : AtStart sep (l ++ sep::r) ↔ AtStart sep r := by
  cases r with
  | nil => simp [AtStart]
  | cons a r => simp [AtStart,List.getLast?_append]

/-- What a collector is asked to do. -/
inductive Op (α : Type)
  | put (a : α)
  | flush

def written : List (Op α) → List α
  | [] => []
  | .put a::ops => a::written ops
  | .flush::ops => written ops

@[simp] theorem written_append (ops ops' : List (Op α)) :
    written (ops ++ ops') = written ops ++ written ops' := by
  induction ops with
  | nil => rfl
  | cons op ops ih => cases op <;> simp [written,ih]

/-- Every flush comes right after a separator or before everything else. -/
def FlushedAtStart (sep : α) (held : List α) (ops : List (Op α)) : Prop :=
  ∀ pre post, ops = pre ++ .flush::post → AtStart sep (held ++ written pre)

theorem flushedAtStart_nil (held : List α) : FlushedAtStart sep held [] := by
  intro pre post h
  simp at h

theorem flushedAtStart_cons {held held' : List α} {op : Op α} {ops : List (Op α)}
    (hop : ∀ l, AtStart sep (held ++ written (op::l)) ↔ AtStart sep (held' ++ written l)) :
    FlushedAtStart sep held (op::ops) ↔
      (op = .flush → AtStart sep held) ∧ FlushedAtStart sep held' ops := by
  constructor
  · intro h
    refine ⟨?_,?_⟩
    · rintro rfl
      simpa [written] using h [] ops rfl
    · intro pre post hops
      exact (hop pre).mp (h (op::pre) post (by rw [hops,List.cons_append]))
  · rintro ⟨hflush,h⟩ pre post hops
    cases pre with
    | nil =>
      obtain ⟨hop',-⟩ := List.cons.inj hops
      simpa [written] using hflush hop'
    | cons op' pre =>
      rw [List.cons_append] at hops
      obtain ⟨rfl,hops'⟩ := List.cons.inj hops
      exact (hop pre).mpr (h pre post hops')

variable [DecidableEq α]

/-- The lines that a separator ends; what follows the last separator is no line yet. -/
def terminated (sep : α) (l : List α) : List (List α) := (l.splitOn sep).dropLast

theorem terminated_of_notMem {l : List α} (hl : sep ∉ l) : terminated sep l = [] := by
  rw [terminated,List.splitOn_eq_singleton hl,List.dropLast_singleton]

theorem terminated_line {l : List α} (hl : sep ∉ l) (r : List α) :
    terminated sep (l ++ sep::r) = l::terminated sep r := by
  rw [terminated,List.splitOn_append_cons_self_of_not_mem hl,
    List.dropLast_cons_of_ne_nil (List.splitOn_ne_nil sep r),terminated]

theorem terminated_length (l : List α) : (terminated sep l).length = l.count sep := by
  rw [terminated,List.length_dropLast]
  induction l with
  | nil => rfl
  | cons a l ih =>
    have hpos : 0 < (l.splitOn sep).length := List.length_pos_iff.mpr (List.splitOn_ne_nil sep l)
    rw [List.splitOn_cons_eq_if_modifyHead,List.count_cons]
    split_ifs with ha
    · rw [List.length_cons]
      omega
    · rw [List.length_modifyHead]
      omega

/-- What a collector that holds `held` hands on. -/
def emitted (sep : α) : List α → List (Op α) → List (List α)
  | _, [] => []
  | held, .put a::ops => if a = sep then held::emitted sep [] ops else emitted sep (held ++ [a]) ops
  | held, .flush::ops => if held = [] then emitted sep [] ops else held::emitted sep [] ops

theorem count_le_emitted (held : List α) (ops : List (Op α)) :
    (written ops).count sep ≤ (emitted sep held ops).length := by
  induction ops generalizing held with
  | nil => exact Nat.zero_le _
  | cons op ops ih =>
    cases op with
    | put a =>
      by_cases ha : a = sep
      · subst ha
        rw [written,List.count_cons_self,emitted,if_pos rfl]
        exact Nat.succ_le_succ (ih [])
      · rw [written,List.count_cons_of_ne ha,emitted,if_neg ha]
        exact ih (held ++ [a])
    | flush =>
      rw [written,emitted]
      split_ifs with hheld
      · exact ih []
      · exact (ih []).trans (Nat.le_succ _)

/-- A collector hands on exactly the lines if and only if it is never flushed in a line. -/
theorem emitted_eq_terminated_iff {held : List α} (hheld : sep ∉ held) (ops : List (Op α)) :
    emitted sep held ops = terminated sep (held ++ written ops) ↔ FlushedAtStart sep held ops := by
  induction ops generalizing held with
  | nil =>
    rw [emitted,written,List.append_nil,terminated_of_notMem hheld]
    exact iff_of_true rfl (flushedAtStart_nil held)
  | cons op ops ih =>
    cases op with
    | put a =>
      by_cases ha : a = sep
      · subst ha
        have hop : ∀ l, AtStart a (held ++ written (.put a::l)) ↔ AtStart a ([] ++ written l) :=
          fun l => atStart_line held (written l)
        rw [flushedAtStart_cons hop,emitted,if_pos rfl,written,terminated_line hheld,
          List.cons_inj_right,← ih List.not_mem_nil,List.nil_append]
        simp
      · have hheld' : sep ∉ held ++ [a] := by simp [hheld,Ne.symm ha]
        have hop : ∀ l, AtStart sep (held ++ written (.put a::l)) ↔
            AtStart sep ((held ++ [a]) ++ written l) := by
          intro l
          rw [written,List.append_assoc,List.singleton_append]
        rw [flushedAtStart_cons hop,emitted,if_neg ha,written,← ih hheld',List.append_assoc,
          List.singleton_append]
        simp
    | flush =>
      by_cases hnil : held = []
      · subst hnil
        have hop : ∀ l, AtStart sep ([] ++ written (.flush::l)) ↔ AtStart sep ([] ++ written l) :=
          fun l => Iff.rfl
        rw [flushedAtStart_cons hop,emitted,if_pos rfl,written,← ih List.not_mem_nil]
        simp [AtStart]
      · -- one list more than there are lines
        rw [emitted,if_neg hnil,written]
        refine iff_of_false ?_ ?_
        · intro heq
          have hlen := congrArg List.length heq
          rw [List.length_cons,terminated_length,List.count_append,List.count_eq_zero.mpr hheld] at hlen
          have hcount : (written ops).count sep ≤ (emitted sep [] ops).length :=
            count_le_emitted [] ops
          omega
        · intro hflushed
          have hstart := hflushed [] ops rfl
          rw [written,List.append_nil,atStart_of_notMem hheld] at hstart
          exact hnil hstart

end Lines

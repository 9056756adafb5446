import Mathlib

/-! Lines that hand things on in order.
What is put on a line comes off it in the order in which it went on, one thing at a time and
each as something that answers it.  A line that has stopped gives nothing more. -/
namespace Conveyors

variable {α β : Type} {R : α → β → Prop} {put put' left left' : List α} {out out' : List β}
  {stopped stopped' : Prop}

/-- `put` went on, `out` came off, and `left` is still there unless the line has stopped. -/
def Carried (R : α → β → Prop) (put : List α) (out : List β) (left : List α)
    (stopped : Prop) : Prop :=
  ∃ gone rest, put = gone ++ rest ∧ List.Forall₂ R gone out ∧ (¬stopped → rest = left)

theorem Carried.start (R : α → β → Prop) (stopped : Prop) : Carried R [] [] [] stopped :=
  ⟨[],[],rfl,.nil,fun _ => rfl⟩

/-- Things are put on; the line may stop then, and nothing is known of what is left. -/
theorem Carried.load (hc : Carried R put out left stopped) (hout : out' = [])
    (hlive : ¬stopped' → ¬stopped ∧ left' = left ++ put') :
    Carried R (put ++ put') (out ++ out') left' stopped' := by
  obtain ⟨gone,rest,rfl,hgone,hrest⟩ := hc
  rw [hout,List.append_nil]
  refine ⟨gone,rest ++ put',by simp,hgone,?_⟩
  intro hnot
  obtain ⟨hnot,rfl⟩ := hlive hnot
  rw [hrest hnot]

theorem Carried.aside (hc : Carried R put out left stopped) (hput : put' = []) (hout : out' = [])
    (hlive : ¬stopped' → ¬stopped ∧ left' = left) :
    Carried R (put ++ put') (out ++ out') left' stopped' :=
  hc.load hout fun hnot => by simpa [hput] using hlive hnot

theorem Carried.next (hc : Carried R put out left stopped) (hput : put' = [])
    (hlive : ¬stopped → ∃ x y, left = x::left' ∧ R x y ∧ out' = [y])
    (hstop : stopped → out' = []) (hstay : ¬stopped' → ¬stopped) :
    Carried R (put ++ put') (out ++ out') left' stopped' := by
  by_cases hs : stopped
  · exact hc.aside hput (hstop hs) fun hnot => absurd hs (hstay hnot)
  · obtain ⟨gone,rest,rfl,hgone,hrest⟩ := hc
    obtain ⟨x,y,rfl,hR,rfl⟩ := hlive hs
    refine ⟨gone ++ [x],left',by simp [hput,hrest hs],?_,fun _ => rfl⟩
    exact List.rel_append hgone (.cons hR .nil)

theorem Carried.through (hc : Carried R put out [] stopped) {x : α}
    (hlive : ¬stopped → ∃ y, R x y ∧ out' = [y]) (hstop : stopped → out' = []) :
    Carried R (put ++ [x]) (out ++ out') [] stopped := by
  have hload : Carried R (put ++ [x]) (out ++ []) [x] stopped := hc.load rfl fun hnot => ⟨hnot,rfl⟩
  rw [List.append_nil] at hload
  rw [← List.append_nil (put ++ [x])]
  refine hload.next rfl (fun hnot => ?_) hstop id
  obtain ⟨y,hR,hout⟩ := hlive hnot
  exact ⟨x,y,rfl,hR,hout⟩

/-- What has come off answers the first things put on, also when only a part of it is kept. -/
theorem Carried.answered (hc : Carried R put out left stopped) (hpre : out' <+: out) :
    ∃ gone, gone <+: put ∧ List.Forall₂ R gone out' := by
  obtain ⟨gone,rest,rfl,hout,-⟩ := hc
  obtain ⟨tail,rfl⟩ := hpre
  refine ⟨gone.take out'.length,(List.take_prefix _ _).trans (List.prefix_append _ _),?_⟩
  exact List.forall₂_take_append gone out' tail hout

theorem Carried.mem (hc : Carried R put out left stopped) (hlive : ¬stopped) {x : α}
    (hx : x ∈ left) : x ∈ put := by
  obtain ⟨gone,rest,rfl,-,hrest⟩ := hc
  rw [hrest hlive]
  exact List.mem_append_right gone hx

theorem Carried.all (hc : Carried R put out [] stopped) (hlive : ¬stopped) :
    List.Forall₂ R put out := by
  obtain ⟨gone,rest,rfl,hout,hrest⟩ := hc
  simpa [hrest hlive] using hout

theorem Carried.segment {out : List α} (hc : Carried Eq put out left stopped) : out <+: put := by
  obtain ⟨gone,rest,rfl,hout,-⟩ := hc
  rw [List.forall₂_eq_eq_eq] at hout
  exact ⟨rest,by rw [hout]⟩

end Conveyors

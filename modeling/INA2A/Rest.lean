import INA2A.Effort

/-! A system at rest: no thread can go on until some control loop ticks again.  Until the
switch has heard the last FINISH nothing is under way in such a state. -/
namespace INA2A

open ByteBuffers BitWords EventMachine Inventory

variable {N : ℕ} {c : Config N} {s : System N} {p : Progress (Fin N) U64} {h g : Fin N}

/-- Steps that wait for no clock and whose `sr_write`, if it is one, may return. -/
def prompt (s : System N) (a : Action N) : Prop := a.untimed = true ∧ oneSlot s a = true

abbrev AtRest (c : Config N) (s : System N) : Prop := Resting (systemMachine c) prompt s

theorem readerLocal_eq_none {w : Switch N} {ts : U64} (hnone : readerLocal w h ts = none)
    (htarget : sendTarget h (w.reader h) = none) :
    w.reader h = .notStarted ∨ w.reader h = .reading ∨ (w.reader h).isExited = true := by
  cases hpos : w.reader h with
  | notStarted => exact .inl rfl
  | reading => exact .inr (.inl rfl)
  | exited failed => exact .inr (.inr rfl)
  | top =>
    simp only [readerLocal,hpos] at hnone
    split_ifs at hnone
  | looking m ids targets =>
    cases ids with
    | nil => simp [readerLocal,hpos] at hnone
    | cons id ids =>
      simp only [readerLocal,hpos] at hnone
      split at hnone <;> cases hnone
  | dispatching m targets => cases targets <;> simp [hpos,sendTarget] at htarget
  | broadcasting rid rest =>
    cases rest with
    | nil => simp [readerLocal,hpos] at hnone
    | cons g rest => simp [hpos,sendTarget] at htarget
  | closing rest =>
    cases rest with
    | nil => simp [readerLocal,hpos] at hnone
    | cons g rest =>
      simp only [readerLocal,hpos] at hnone
      split_ifs at hnone
  | _ => simp [readerLocal,hpos,sendTarget] at hnone htarget

namespace AtRest

theorem accepted (hrest : AtRest c s) (g : Fin N) : s.switch.hosts g = true := by
  by_contra hg
  have hnone : systemStep c s (.accept g) = none := hrest (.accept g) ⟨rfl,rfl⟩
  simp [systemStep,switchStep,hg] at hnone

theorem started (hrest : AtRest c s) (h : Fin N) : s.switch.reader h ≠ .notStarted := by
  intro hpos
  have hnone : systemStep c s (.start h) = none := hrest (.start h) ⟨rfl,rfl⟩
  simp [systemStep,switchStep,hpos,hrest.accepted] at hnone

theorem hostStep (hrest : AtRest c s) {a : HostAction} (ha : ∀ now ts, a ≠ .tick now ts) :
    hostStep h (c.env h) (s.host h) a = none := by
  have hun : (Action.host h a).untimed = true := by
    cases a with
    | tick now ts => exact absurd rfl (ha now ts)
    | _ => rfl
  have hnone : systemStep c s (.host h a) = none := hrest (.host h a) ⟨hun,rfl⟩
  simpa [systemStep,hrest.accepted] using hnone

theorem control (hrest : AtRest c s) (hmode : (c.args h).mode = .fourLoops) :
    (s.host h).control = .admitted [] none := by
  have henv : (c.env h).mode = .fourLoops := hmode
  have hnone := hrest.hostStep (h:=h) (a:=.push 0) (by simp)
  simp only [INA2A.hostStep,Host.mayControl,henv,if_true] at hnone
  unfold controlPush at hnone
  split at hnone
  · dsimp only at hnone
    split at hnone <;> cases hnone
  all_goals first | assumption | cases hnone

theorem computing (hrest : AtRest c s) (hmode : (c.args h).mode = .fourLoops) :
    (s.host h).computing = .exited ∨ (s.host h).computing = .popping ∧
      (s.host h).computeQueue.items = [] ∧ (s.host h).computeQueue.closed = false := by
  have henv : (c.env h).mode = .fourLoops := hmode
  have hnone := hrest.hostStep (h:=h) (a:=.compute 0) (by simp)
  simp only [INA2A.hostStep,Host.mayCompute,henv,if_true] at hnone
  unfold computeStep at hnone
  split at hnone
  · simp [henv] at hnone
  · rename_i hpos
    split at hnone
    · rename_i hitems
      exact .inr ⟨hpos,hitems,by simpa using hnone⟩
    · cases hnone
  · split_ifs at hnone
  · cases hnone
  · exact .inl (by assumption)

theorem sending (hrest : AtRest c s) (hmode : (c.args h).mode = .fourLoops) :
    (s.host h).sending = .exited ∨ ((s.host h).sending = .popping ∧
      (s.host h).sendQueue.items = [] ∧ (s.host h).sendQueue.closed = false) ∨
      ∃ m, (s.host h).sending = .writing m ∧ s.toSwitch h ≠ [] := by
  have henv : (c.env h).mode = .fourLoops := hmode
  have hnone := hrest.hostStep (h:=h) (a:=.send) (by simp)
  simp only [INA2A.hostStep,Host.maySend,henv,if_true,Option.map_eq_none_iff] at hnone
  cases hpos : (s.host h).sending with
  | exited => exact .inl rfl
  | top => simp [sendStep,hpos,henv] at hnone
  | popping =>
    simp only [sendStep,hpos] at hnone
    split at hnone
    · rename_i hitems
      exact .inr (.inl ⟨rfl,hitems,by simpa using hnone⟩)
    · cases hnone
  | writing m =>
    refine .inr (.inr ⟨m,rfl,?_⟩)
    intro hempty
    have hwrite : systemStep c s (.write h) = none := hrest (.write h) ⟨rfl,by simp [oneSlot,hempty]⟩
    simp only [systemStep,hostWrite,hpos] at hwrite
    split at hwrite <;> cases hwrite

theorem reading (hrest : AtRest c s) (hmode : (c.args h).mode = .fourLoops) :
    (s.host h).reading = .exited ∨ (s.host h).reading = .reading ∧ s.toHost h = [] := by
  have henv : (c.env h).mode = .fourLoops := hmode
  have hnone := hrest.hostStep (h:=h) (a:=.read 0) (by simp)
  simp only [INA2A.hostStep,Host.mayRead,henv,if_true] at hnone
  cases hpos : (s.host h).reading with
  | exited => exact .inl rfl
  | top => simp [readStep,hpos,henv] at hnone
  | got m => simp [readStep,hpos] at hnone
  | reading =>
    refine .inr ⟨rfl,?_⟩
    by_contra hunread
    obtain ⟨frame,rest,hq⟩ := List.exists_cons_of_ne_nil hunread
    have hreceive : systemStep c s (.receive h) = none := hrest (.receive h) ⟨rfl,rfl⟩
    simp only [systemStep,hostReceive,hpos,hq,Host.mayRead,henv,if_true] at hreceive
    split at hreceive <;> cases hreceive

theorem reader (hrest : AtRest c s) (hw : SendsWhatItWrites s.switch) (h : Fin N) :
    (s.switch.reader h).isExited = true ∨
      (s.switch.reader h = .reading ∧ s.toSwitch h = [] ∧ s.switch.opened h = true) ∨
      ∃ g, sendTarget h (s.switch.reader h) = some g ∧
        ((∃ ts, s.switch.writing h = some ts) ∧ s.toHost g ≠ [] ∨
          s.switch.writing h = none ∧ ¬writeMutexFree s.switch g) := by
  have hok : (∀ ts, s.switch.writing h ≠ some ts) ∨ sendTarget h (s.switch.reader h) = none ∨
      (∃ g, sendTarget h (s.switch.reader h) = some g ∧ s.toHost g = []) →
      systemReader s h 0 = none := by
    intro hfree
    refine hrest (.reader h 0) ⟨rfl,?_⟩
    simp only [oneSlot]
    split
    · rename_i ts g hwriting htarget
      rcases hfree with hfree | hfree | ⟨g',hg',hempty⟩
      · exact absurd hwriting (hfree ts)
      · rw [hfree] at htarget
        cases htarget
      · rw [htarget] at hg'
        obtain rfl := Option.some.inj hg'
        simp [hempty]
    · rfl
  cases htarget : sendTarget h (s.switch.reader h) with
  | some g =>
    refine .inr (.inr ⟨g,rfl,?_⟩)
    cases hwriting : s.switch.writing h with
    | some ts =>
      refine .inl ⟨⟨ts,rfl⟩,?_⟩
      intro hempty
      have hnone := hok (.inr (.inr ⟨g,htarget,hempty⟩))
      unfold systemReader at hnone
      split at hnone
      · rename_i hpos
        simp [hpos,sendTarget] at htarget
      · simp only [hwriting,htarget,readerStep] at hnone
        split at hnone <;> simp at hnone
    | none =>
      refine .inr ⟨rfl,?_⟩
      intro hfree
      have hnone := hok (.inl (by simp [hwriting]))
      unfold systemReader at hnone
      split at hnone
      · rename_i hpos
        simp [hpos,sendTarget] at htarget
      · simp only [hwriting,readerStep,if_true,Option.map_eq_none_iff] at hnone
        unfold readerLocal at hnone
        split at hnone <;> simp_all [sendTarget,enterSend]
        all_goals split_ifs at hnone
  | none =>
    have hwriting : s.switch.writing h = none := by
      by_contra hne
      exact hw h hne htarget
    have hnone := hok (.inr (.inl htarget))
    by_cases hpos : s.switch.reader h = .reading
    · refine .inr (.inl ⟨hpos,?_⟩)
      simp only [systemReader,hpos] at hnone
      split at hnone
      · split at hnone <;> simp [readerStep,hpos] at hnone
      · rename_i hempty
        refine ⟨hempty,?_⟩
        by_contra hclosed
        simp [hclosed,readerStep,hpos] at hnone
    · unfold systemReader at hnone
      split at hnone
      · contradiction
      · simp only [hwriting,readerStep,if_true,Option.map_eq_none_iff] at hnone
        rcases readerLocal_eq_none hnone htarget with hstart | hread | hexited
        · exact absurd hstart (hrest.started h)
        · contradiction
        · exact .inl hexited

theorem main (hrest : AtRest c s) :
    s.switch.main = .done ∨
      s.switch.main = .joining ∧ ∃ h, (s.switch.reader h).isExited = false := by
  have hnone : systemStep c s .main = none := hrest .main ⟨rfl,rfl⟩
  simp only [systemStep,switchStep,Option.map_eq_none_iff] at hnone
  cases hpos : s.switch.main with
  | done => exact .inl rfl
  | joining =>
    refine .inr ⟨rfl,?_⟩
    by_contra hall
    push Not at hall
    simp [mainStep,hpos,hall] at hnone
  | closing rest =>
    cases rest with
    | nil => simp [mainStep,hpos] at hnone
    | cons g rest =>
      simp only [mainStep,hpos] at hnone
      split_ifs at hnone
  | nulling g rest => simp [mainStep,hpos] at hnone

theorem waiting (hrest : AtRest c s) (hw : SendsWhatItWrites s.switch)
    (hread : ∀ g, s.toHost g = []) (h : Fin N) :
    (s.switch.reader h).isExited = true ∨
      (s.switch.reader h = .reading ∧ s.toSwitch h = [] ∧ s.switch.opened h = true) := by
  have hfree : ∀ r, s.switch.writing r = none := by
    intro r
    by_contra hne
    rcases hrest.reader hw r with hexited | ⟨hpos,-⟩ | ⟨g,-,⟨-,hunread⟩ | ⟨hnone,-⟩⟩
    · refine hw r hne ?_
      cases hpos : s.switch.reader r <;> simp [hpos,ReaderPos.isExited,sendTarget] at hexited ⊢
    · exact hw r hne (by simp [hpos,sendTarget])
    · exact hunread (hread g)
    · exact hne hnone
  rcases hrest.reader hw h with hexited | hpos | ⟨g,-,⟨-,hunread⟩ | ⟨-,hmutex⟩⟩
  · exact .inl hexited
  · exact .inr hpos
  · exact absurd (hread g) hunread
  · exact absurd (fun r => .inl (hfree r)) hmutex

/-- Until the switch has heard the last FINISH, nothing is under way at rest. -/
theorem nothingUnderWay (hrest : AtRest c s) (hmode : ∀ h, (c.args h).mode = .fourLoops)
    (hw : SendsWhatItWrites s.switch) (hf : Follows c s p) (hne : ¬p.allMarked) (h : Fin N) :
    items s h = 0 := by
  have hswitch := hf.switchRunning hne
  have hread : ∀ g, (s.host g).reading = .reading ∧ s.toHost g = [] := fun g =>
    (hrest.reading (hmode g)).resolve_left (hf.hostRunning hne g).reading
  have hpos : s.switch.reader h = .reading ∧ s.toSwitch h = [] ∧ s.switch.opened h = true := by
    refine (hrest.waiting hw (fun g => (hread g).2) h).resolve_left ?_
    intro hexited
    have hserving := hswitch.readers h
    cases hcase : s.switch.reader h <;> simp [hcase,ReaderPos.isExited,ReaderPos.serving]
      at hexited hserving
  have hhost := hf.hostRunning hne h
  obtain ⟨hcomputing,htasks,-⟩ := (hrest.computing (hmode h)).resolve_left hhost.computing
  have hsending : (s.host h).sending = .popping ∧ (s.host h).sendQueue.items = [] := by
    rcases hrest.sending (hmode h) with hexited | ⟨hpop,hitems,-⟩ | ⟨m,-,hfull⟩
    · exact absurd hexited hhost.sending
    · exact ⟨hpop,hitems⟩
    · exact absurd hpos.2.1 hfull
  simp [items,Host.items,hrest.control (hmode h),hcomputing,htasks,hsending.1,hsending.2,
    (hread h).1,(hread h).2,hpos.1,hpos.2.1,Control.items,Computing.items,Sending.items,
    Reading.items,ReaderPos.items]

end AtRest

end INA2A

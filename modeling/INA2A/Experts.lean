import INA2A.Shutdown

/-! The experts' side: each selected expert gets one input, queues one result, and the switch
accepts it; no branch that rejects or ignores anything is ever taken. -/
namespace INA2A

open ByteBuffers BitWords EventMachine Inventory

variable {N : ℕ} {c : Config N} {s s' : System N} {p : Progress (Fin N) U64} {h o e : Fin N}
variable {hist : List (Event N)} {i : ℕ}

def Event.sendsInput (c : Config N) (o : Fin N) (i : ℕ) (e : Fin N) : Event N → Bool
  | .toHost g m =>
    g = e ∧ m.header.kind = some .expertInput ∧ makeKey m.header = c.key o i
  | _ => false

def Event.queuesResult (c : Config N) (o : Fin N) (i : ℕ) (e : Fin N) : Event N → Bool
  | .enqueued g m =>
    g = e ∧ m.header.kind = some .expertResult ∧ makeKey m.header = c.key o i
  | _ => false

theorem originOf_of_key {m : Msg} (hkey : makeKey m.header = c.key o i) :
    originOf m = some o := originOf_eq c (congrArg CombineKey.originRank hkey)

theorem globalIdx_of_key {m : Msg} (hi : i < c.num o) (hkey : makeKey m.header = c.key o i) :
    m.header.globalIdx.toNat = i := by
  have hidx : m.header.globalIdx = BitVec.ofNat 64 i := congrArg CombineKey.globalIdx hkey
  rw [hidx,index_toNat c hi]

theorem Event.sign_of_sendsInput {x : Event N} (hi : i < c.num o)
    (hx : x.sendsInput c o i e = true) : x.sign = some (.down e (.input o i)) := by
  cases x with
  | toHost g m =>
    simp only [Event.sendsInput,decide_eq_true_eq] at hx
    obtain ⟨rfl,hkind,hkey⟩ := hx
    simp [Event.sign,noteDown,hkind,originOf_of_key hkey,globalIdx_of_key hi hkey]
  | _ => cases hx

theorem Event.sign_of_queuesResult {x : Event N} (hi : i < c.num o)
    (hx : x.queuesResult c o i e = true) : x.sign = some (.enq e (.result o i)) := by
  cases x with
  | enqueued g m =>
    simp only [Event.queuesResult,decide_eq_true_eq] at hx
    obtain ⟨rfl,hkind,hkey⟩ := hx
    simp [Event.sign,noteUp,hkind,originOf_of_key hkey,globalIdx_of_key hi hkey]
  | _ => cases hx

theorem Event.sendsInput_of_sign {x : Event N} (hgen : x.Genuine c)
    (hx : x.sign = some (.down e (.input o i))) : x.sendsInput c o i e = true := by
  cases x with
  | toHost g m =>
    rcases hgen with ⟨j,ts,hj,rfl⟩ | ⟨j,ts,hj,rfl⟩ | ⟨j,ts,hj,rfl⟩ | ⟨o',j,ts,hj,rfl⟩ | ⟨rid,ts,rfl⟩
    · simp [Event.sign,noteDown_ack c hj] at hx
    · simp [Event.sign,noteDown_notReady c hj] at hx
    · simp [Event.sign,noteDown_combined c hj] at hx
    · simp only [Event.sign,noteDown_input c hj,Option.map_some,Option.some.injEq,Sign.down.injEq,
        Note.input.injEq] at hx
      obtain ⟨rfl,rfl,rfl⟩ := hx
      simp only [Event.sendsInput,decide_eq_true_eq]
      exact ⟨trivial,rfl,input_key c o' j g ts⟩
    · cases hx
  | toSwitch g m =>
    simp only [Event.sign] at hx
    cases hn : noteUp (N := N) m <;> simp [hn] at hx
  | enqueued g m =>
    simp only [Event.sign] at hx
    cases hn : noteUp (N := N) m <;> simp [hn] at hx
  | dispatched k =>
    simp only [Event.sign] at hx
    split_ifs at hx
    cases hx
  | _ => cases hx

theorem countP_filterMap_sign {f : Event N → Bool} {x : Sign (Fin N)}
    (hf : ∀ a ∈ hist, f a = true → a.sign = some x) :
    hist.countP f ≤ (hist.filterMap Event.sign).count x := by
  rw [List.count,List.countP_filterMap]
  exact List.countP_mono_left fun a ha hfa => by simp [hf a ha hfa]

theorem countP_input (hr : Run (systemMachine c) s hist) (hi : i < c.num o) (e : Fin N) :
    hist.countP (Event.sendsInput c o i e) =
      (hist.filterMap Event.sign).count (.down e (.input o i)) := by
  rw [List.count,List.countP_filterMap]
  refine List.countP_congr fun a ha => ?_
  constructor
  · intro hx
    simp [Event.sign_of_sendsInput hi hx]
  · intro hx
    apply Event.sendsInput_of_sign (run_genuine hr a ha)
    cases hsign : a.sign with
    | none => simp [hsign] at hx
    | some b => simpa [hsign] using hx

/-- What may be relied on about the work for tokens at their experts. -/
structure WorkOnce (c : Config N) (s : System N) (hist : List (Event N)) : Prop where
  inputs : ∀ o i (e : Fin N), i < c.num o → hist.countP (Event.sendsInput c o i e) ≤ 1
  returned : ∀ o i (e : Fin N), i < c.num o → .dispatched (c.key o i) ∈ hist →
    (c.token o i).expertBitmap.getLsbD e = true → hist.countP (Event.sendsInput c o i e) = 1
  results : ∀ o i (e : Fin N), i < c.num o → hist.countP (Event.queuesResult c o i e) ≤ 1
  accepted : ∀ h m, s.switch.reader h = .got m → m.header.kind = some .expertResult →
    ∃ queue, handleExpertResult s.switch.combineQueue m = .ok queue
  noneRejected : ∀ f, .rejected f ∉ hist

theorem work_once (c : Config N) {s : System N} {hist : List (Event N)}
    (hr : Run (systemMachine c) s hist) : WorkOnce c s hist := by
  obtain ⟨p,hf,hc⟩ := exists_course hr
  have hp := orderly_of_course hc
  refine ⟨?_,?_,?_,?_,rejected_notMem hr⟩
  · intro o i e hi
    rw [countP_input hr hi,(course_work hc o i e).1]
    exact (p.job o i e).inputs_le
  · intro o i e hi hdisp he
    rw [countP_input hr hi]
    refine course_returned hc (List.mem_filterMap.mpr ⟨_,hdisp,sign_dispatched c hi⟩) ?_
    simpa [Config.plan,Config.experts] using he
  · intro o i e hi
    refine (countP_filterMap_sign fun a _ => Event.sign_of_queuesResult hi).trans ?_
    rw [(course_work hc o i e).2]
    exact (p.job o i e).results_le.trans (p.job o i e).inputs_le
  · intro h m hk hkind
    have hx : Item.wire m ∈ items s h := mem_items_of_reader (by simp [ReaderPos.items,hk])
    rcases hf.of_wire hx with ⟨j,ts,-,rfl⟩ | ⟨j,ts,-,rfl⟩ | ⟨o,j,ts,hj,rfl⟩ | ⟨ts,-,rfl⟩
    · cases hkind
    · cases hkind
    · exact ⟨_,result_accepted hf hp hj⟩
    · cases hkind

theorem work_once_sample : ∃ (s : System 1) (hist : List (Event 1)),
    Run (systemMachine (soloConfig .fourLoops 1)) s hist ∧
    hist.countP (Event.sendsInput (soloConfig .fourLoops 1) 0 0 0) = 1 ∧
    WorkOnce (soloConfig .fourLoops 1) s hist := by
  obtain ⟨s,hist,hrun,hp⟩ := exists_run_of_replay (systemMachine (soloConfig .fourLoops 1))
    (fun _ _ => true) (System.initial _) soloRun
    (fun _ hist => hist.countP (Event.sendsInput (soloConfig .fourLoops 1) 0 0 0) = 1) rfl
    (by decide +kernel)
  exact ⟨s,hist,hrun.run,of_decide_eq_true hp,work_once _ hrun.run⟩

end INA2A

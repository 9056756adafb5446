import INA2A.Combine

/-! What crosses the connections: only messages that the configuration's tokens call for. -/
namespace INA2A

open ByteBuffers BitWords EventMachine Inventory

variable {N : ℕ} {c : Config N} {s s' : System N} {p : Progress (Fin N) U64} {h : Fin N}
variable {hist ev : List (Event N)}

/-- A message crosses a connection, or the broadcast starts. -/
def Event.visible : Event N → Bool
  | .toSwitch _ _ | .toHost _ _ | .broadcast => true
  | _ => false

/-- What crosses a connection was made for a token of the configuration, or is a FINISH. -/
def Event.Genuine (c : Config N) : Event N → Prop
  | .toSwitch h m => (∃ i ts, i < c.num h ∧ m = c.dispatch h i ts) ∨
      (∃ i ts, i < c.num h ∧ m = c.pull h i ts) ∨
      (∃ o i ts, i < c.num o ∧ m = c.result o i h ts) ∨ ∃ ts, m = c.finish h ts
  | .toHost h m => (∃ i ts, i < c.num h ∧ m = c.ack h i ts) ∨
      (∃ i ts, i < c.num h ∧ m = c.notReady h i ts) ∨
      (∃ i ts, i < c.num h ∧ m = c.combined h i ts) ∨
      (∃ o i ts, i < c.num o ∧ m = c.input o i h ts) ∨ ∃ rid ts, m = broadcastFinishMsg rid h ts
  | _ => True

theorem Event.genuine_of_not_visible {e : Event N} (he : e.visible = false) : e.Genuine c := by
  cases e <;> simp [Event.visible] at he <;> trivial

theorem pushSend_quiet {g : Fin N} {v v' : Host} {m : Msg} (hs : pushSend g v m = (v',ev)) :
    ∀ e ∈ ev, e.visible = false := by
  obtain ⟨-,rfl⟩ := Prod.mk.inj hs
  split_ifs <;> simp [Event.visible]

theorem pushCompute_quiet {v v' : Host} {t : ComputeTask} (hs : pushCompute v t = (v',ev)) :
    ∀ e ∈ ev, e.visible = false := by
  obtain ⟨-,rfl⟩ := Prod.mk.inj hs
  split_ifs <;> simp [Event.visible]

theorem controlPush_quiet {g : Fin N} {env : HostEnv} {v v' : Host} {ts : U64}
    (hs : controlPush g env v ts = some (v',ev)) : ∀ e ∈ ev, e.visible = false := by
  unfold controlPush at hs
  split at hs
  · dsimp only at hs
    split at hs
    · obtain ⟨-,rfl⟩ := Prod.mk.inj (Option.some.inj hs)
      simp
    · exact pushSend_quiet (Option.some.inj hs)
  · obtain ⟨-,rfl⟩ := Prod.mk.inj (Option.some.inj hs)
    simp
  · obtain ⟨-,rfl⟩ := Prod.mk.inj (Option.some.inj hs)
    simp
  · exact pushCompute_quiet (Option.some.inj hs)
  · exact pushSend_quiet (Option.some.inj hs)
  · cases hs

theorem computeStep_quiet {g : Fin N} {env : HostEnv} {v v' : Host} {ts : U64}
    (hs : computeStep g env v ts = some (v',ev)) : ∀ e ∈ ev, e.visible = false := by
  have hnil : ∀ {w : Host}, some (w,[]) = some (v',ev) → ∀ e ∈ ev, e.visible = false := by
    intro w hw
    obtain ⟨-,rfl⟩ := Prod.mk.inj (Option.some.inj hw)
    simp
  unfold computeStep at hs
  split at hs
  · split at hs
    · split at hs <;> exact hnil hs
    · exact hnil hs
  · split at hs
    · split at hs
      · exact hnil hs
      · cases hs
    · exact hnil hs
  · split at hs <;> exact hnil hs
  · exact pushSend_quiet (Option.some.inj hs)
  · cases hs

theorem readStep_quiet {env : HostEnv} {v v' : Host} {now : ℕ}
    (hs : readStep env v now = some (v',ev)) : ∀ e ∈ ev, e.visible = false := by
  unfold readStep at hs
  split at hs
  · split at hs <;> obtain ⟨-,rfl⟩ := Prod.mk.inj (Option.some.inj hs) <;> simp
  · split at hs
    · cases hs
    · obtain ⟨-,rfl⟩ := Prod.mk.inj (Option.some.inj hs)
      simp
  · rename_i m _
    obtain ⟨-,rfl⟩ := Prod.mk.inj (Option.some.inj hs)
    unfold handleIncomingMessage
    split
    case h_2 => exact pushCompute_quiet (v := v) (t := .expertMlp m) rfl
    all_goals simp [Event.visible]
  · cases hs

theorem hostStep_quiet {g : Fin N} {env : HostEnv} {v v' : Host} {a : HostAction}
    (hs : hostStep g env v a = some (v',ev)) : ∀ e ∈ ev, e.visible = false := by
  cases hostStep_move hs with
  | tick _ hw => simp
  | push _ hw => exact controlPush_quiet hw
  | compute _ hw => exact computeStep_quiet hw
  | send _ hw => simp
  | read _ hw => exact readStep_quiet hw

theorem clearedEvents_quiet (queue : CombineQueue) (key : CombineKey) (rank : ℕ) :
    ∀ e ∈ (clearedEvents queue key rank : List (Event N)), e.visible = false := by
  unfold clearedEvents
  split
  · simp
  · split <;> simp [Event.visible]

theorem afterSendEvents_quiet (q : ReaderPos N) : ∀ e ∈ afterSendEvents q, e.visible = false := by
  unfold afterSendEvents
  split <;> simp [Event.visible]

theorem ReaderMove.quiet {w w' : Switch N} {ts : U64} (hm : ReaderMove w h (.go ts) w' ev) :
    ∀ e ∈ ev, e.visible = false ∨ e = .broadcast := by
  cases hm with
  | create _ m targets _ _ =>
    unfold createSlot
    dsimp only
    split_ifs <;> simp [Event.visible]
  | clear => exact fun e he => Or.inl (clearedEvents_quiet _ _ _ e he)
  | sendNull => exact fun e he => Or.inl (afterSendEvents_quiet _ e he)
  | _ => simp [Event.visible]

theorem SwitchMove.quiet {w w' : Switch N} {a : SwitchAction N} (hm : SwitchMove w a w' ev)
    (ha : ∀ h i, a ≠ .reader h i) : ∀ e ∈ ev, e.visible = false := by
  cases hm with
  | accept => simp
  | start => simp
  | reader h i => exact absurd rfl (ha h i)
  | main _ _ hm => cases hm <;> simp [Event.visible]

theorem hostWrite_genuine (hf : Follows c s p) (hp : Orderly c.plan p)
    (hs : hostWrite c s h = some (s',ev)) : ∀ e ∈ ev, e.Genuine c := by
  obtain ⟨m,-,hx,rfl,-⟩ := hf.hostWrite_move hs
  simp only [List.mem_singleton,forall_eq,Event.Genuine]
  rcases hf.of_out hx with ⟨i,ts,hst,rfl⟩ | ⟨i,ts,hst,rfl⟩ | ⟨o,i,ts,hj,rfl⟩ | ⟨ts,-,rfl⟩
  · exact Or.inl ⟨i,ts,hp.lt_num (by simp [hst]),rfl⟩
  · exact Or.inr (Or.inl ⟨i,ts,hp.lt_num (by simp [hst]),rfl⟩)
  · exact Or.inr (Or.inr (Or.inl ⟨o,i,ts,hp.lt_num_of_job (e := h) (by simp [hj]),rfl⟩))
  · exact Or.inr (Or.inr (Or.inr ⟨ts,rfl⟩))

theorem send_genuine (hf : Follows c s p) (hp : Orderly c.plan p) {g : Fin N} {ts : U64}
    (htarget : sendTarget h (s.switch.reader h) = some g) :
    (Event.toHost g (sendMsg ts (s.switch.reader h))).Genuine c := by
  cases hk : s.switch.reader h with
  | dispatching m rest =>
    have hx : Item.fan m rest ∈ items s h := mem_items_of_reader (by simp [ReaderPos.items,hk])
    obtain ⟨i,stamp,hst,rfl⟩ := hf.of_fan hx
    have hi : i < c.num h := hp.lt_num (by simp [hst])
    cases rest with
    | cons g' rest =>
      obtain rfl : g' = g := by simpa [hk,sendTarget] using htarget
      exact Or.inr (Or.inr (Or.inr (Or.inl ⟨h,i,ts,hi,rfl⟩)))
    | nil =>
      obtain rfl : h = g := by simpa [hk,sendTarget] using htarget
      exact Or.inl ⟨i,ts,hi,rfl⟩
  | replying m =>
    have hx : Item.reply m ∈ items s h := mem_items_of_reader (by simp [ReaderPos.items,hk])
    obtain rfl : h = g := by simpa [hk,sendTarget] using htarget
    rcases hf.of_reply hx with ⟨i,stamp,hst,rfl⟩ | ⟨i,stamp,hst,rfl⟩
    · exact Or.inr (Or.inl ⟨i,stamp,hp.lt_num (by simp [hst]),rfl⟩)
    · exact Or.inr (Or.inr (Or.inl ⟨i,stamp,hp.lt_num (by simp [hst]),rfl⟩))
  | broadcasting rid rest =>
    cases rest with
    | cons g' rest =>
      obtain rfl : g' = g := by simpa [hk,sendTarget] using htarget
      exact Or.inr (Or.inr (Or.inr (Or.inr ⟨rid,ts,rfl⟩)))
    | nil => simp [hk,sendTarget] at htarget
  | _ => simp [hk,sendTarget] at htarget

theorem systemReader_genuine (hf : Follows c s p) (hp : Orderly c.plan p) {ts : U64}
    (hs : systemReader s h ts = some (s',ev)) : ∀ e ∈ ev, e.Genuine c := by
  cases hf.systemReader_move hs with
  | received hk hq => simp
  | lost hk hclosed => simp
  | sent hwriting htarget =>
    intro e he
    simp only [finishSend,if_true,List.mem_append,List.mem_singleton] at he
    rcases he with rfl | he
    · exact send_genuine hf hp htarget
    · exact Event.genuine_of_not_visible (afterSendEvents_quiet _ e he)
  | go hr =>
    intro e he
    rcases (readerStep_move hr).quiet e he with hquiet | rfl
    · exact Event.genuine_of_not_visible hquiet
    · trivial

theorem Follows.step_genuine (hf : Follows c s p) (hp : Orderly c.plan p) {a : Action N}
    (hs : systemStep c s a = some (s',ev)) : ∀ e ∈ ev, e.Genuine c := by
  have hswitch : ∀ {b : SwitchAction N}, (∀ h i, b ≠ .reader h i) →
      (switchStep s.switch b).map (fun r => ({ s with switch := r.1 },r.2)) = some (s',ev) →
      ∀ e ∈ ev, e.Genuine c := by
    intro b hb hs e he
    obtain ⟨⟨w,ev'⟩,hr,heq⟩ := Option.map_eq_some_iff.mp hs
    obtain ⟨-,rfl⟩ := Prod.mk.inj heq
    exact Event.genuine_of_not_visible ((switchStep_move hr).quiet hb e he)
  cases a with
  | accept g => exact hswitch (by simp) hs
  | start h => exact hswitch (by simp) hs
  | host h a =>
    obtain ⟨v,hr,rfl⟩ := systemStep_host hs
    exact fun e he => Event.genuine_of_not_visible (hostStep_quiet hr e he)
  | write h => exact hostWrite_genuine hf hp hs
  | receive h =>
    obtain ⟨frame,rest,-,-,rfl,-⟩ := hf.hostReceive_move hs
    simp
  | reader h ts => exact systemReader_genuine hf hp hs
  | main => exact hswitch (by simp) hs

theorem run_genuine (hr : Run (systemMachine c) s hist) : ∀ e ∈ hist, e.Genuine c := by
  refine hr.invariant (P := fun _ hist => ∀ e ∈ hist, e.Genuine c) (by simp) ?_
  intro s hist a s' ev hr hgen _ hs e he
  obtain ⟨p,hf,hp⟩ := exists_progress hr
  rcases List.mem_append.mp he with he | he
  · exact hgen e he
  · exact hf.step_genuine hp hs e he

end INA2A

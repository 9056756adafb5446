import INA2A.SwitchSlots

/-! What the switch reports in a COMBINE_RESULT.  The bitmap of a result is the slot's
`expected_bitmap`, from which the send-failure branch removes nothing. -/
namespace INA2A

open ByteBuffers BitWords EventMachine

variable {N : ℕ}

theorem QueueStep.taken_from {queue queue' : CombineQueue} {ev : List (Event N)} {k : CombineKey}
    {bitmap : U64} {data : Bytes} (hs : QueueStep N queue ev queue') (hmem : .taken k bitmap data ∈ ev) :
    ∃ slot, queue k = some slot ∧ slot.ready = true ∧ bitmap = slot.expectedBitmap ∧
      data = slot.data ∧ ev = [.taken k bitmap data] := by
  cases hs with
  | keep hkeep => exact absurd (hkeep _ hmem) (by simp [Event.aboutQueue])
  | result hm => simp at hmem
  | @take key slot hslot hready =>
    simp only [List.mem_singleton,Event.taken.injEq] at hmem
    obtain ⟨rfl,rfl,rfl⟩ := hmem
    exact ⟨slot,hslot,hready,rfl,rfl,rfl⟩
  | create header targets hkeep =>
    rcases List.mem_append.mp hmem with hmem | hmem
    · exact absurd (hkeep _ hmem) (by simp [Event.aboutQueue])
    · simp at hmem
  | clear key rank =>
    unfold clearedEvents at hmem
    split at hmem
    · simp at hmem
    · split_ifs at hmem <;> simp at hmem

theorem QueueStep.taken {queue queue' : CombineQueue} {ev ev₁ ev₂ hist : List (Event N)}
    {k : CombineKey} {bitmap : U64} {data : Bytes} (hs : QueueStep N queue ev queue')
    (hev : ev = ev₁ ++ .taken k bitmap data::ev₂) (h : SlotsOk N queue hist) :
    ev₁ = [] ∧ (∀ e, bitmap.getLsbD e = true ↔
      e ∈ (record k hist).ranks ∨ e ∈ (record k hist).cleared) ∧
      (∀ e ∈ (record k hist).ranks, e ∉ (record k hist).cleared) ∧
      data = Bytes.sum data.size (record k hist).payloads := by
  have hmem : .taken k bitmap data ∈ ev := by simp [hev]
  obtain ⟨slot,hslot,hready,rfl,rfl,hsingle⟩ := hs.taken_from hmem
  have hok := h k slot hslot
  have hzero := hok.ready.mp hready
  refine ⟨?_,?_,hok.apart,?_⟩
  · rw [hsingle] at hev
    cases ev₁ with
    | nil => rfl
    | cons e ev₁ => simp at hev
  · intro e
    rw [hok.expected e,hzero]
    simp
  · rw [hok.size,← hok.sum]

/-- A COMBINE_RESULT about to be sent, or already sent, was taken from a slot. -/
structure ResultsTaken (s : Switch N) (hist : List (Event N)) : Prop where
  replying : ∀ h m, s.reader h = .replying m → m.header.kind = some .combineResult →
    .taken (makeKey m.header) m.header.expertBitmap m.payload ∈ hist
  sent : ∀ g m, .toHost g m ∈ hist → m.header.kind = some .combineResult →
    .taken (makeKey m.header) m.header.expertBitmap m.payload ∈ hist

theorem new_kind (t : MsgType) (n : U32) : (MsgHeader.new t n).kind = some t :=
  MsgType.ofCode_code t

theorem sendMsg_combineResult {h g : Fin N} {p : ReaderPos N} {ts : U64}
    (hg : sendTarget h p = some g) (hk : (sendMsg ts p).header.kind = some .combineResult) :
    p = .replying (sendMsg ts p) := by
  cases p with
  | dispatching m targets =>
    cases targets <;> simp [sendMsg,expertInputMsg,ackMsg,MsgHeader.kind,MsgHeader.new] at hk
  | broadcasting rid rest =>
    cases rest with
    | nil => simp [sendTarget] at hg
    | cons g rest => simp [sendMsg,broadcastFinishMsg,MsgHeader.kind,MsgHeader.new] at hk
  | replying m => rfl
  | _ => simp [sendTarget] at hg

theorem afterSend_not_replying (ok : Bool) {h g : Fin N} {p : ReaderPos N}
    (hg : sendTarget h p = some g) (m : Msg) : afterSend ok p ≠ .replying m := by
  cases p with
  | dispatching _ targets => cases targets <;> cases ok <;> simp [afterSend]
  | broadcasting _ rest => cases rest <;> simp_all [afterSend,sendTarget]
  | _ => simp_all [afterSend,sendTarget]

theorem ReaderMove.resultsTaken {s s' : Switch N} {h : Fin N} {i : ReaderInput}
    {hist ev : List (Event N)} (hm : ReaderMove s h i s' ev) (ht : ResultsTaken s hist) :
    ResultsTaken s' (hist ++ ev) := by
  have hother : ∀ g m, g ≠ h → s'.reader g = .replying m →
      m.header.kind = some .combineResult →
      .taken (makeKey m.header) m.header.expertBitmap m.payload ∈ hist ++ ev := by
    intro g m hg hr hk
    rw [hm.reader_of_ne hg] at hr
    exact List.mem_append_left _ (ht.replying g m hr hk)
  have hself : ∀ m, s'.reader h = .replying m → m.header.kind = some .combineResult →
      .taken (makeKey m.header) m.header.expertBitmap m.payload ∈ hist ++ ev := by
    intro m hr hk
    cases hm with
    | pullReady ts src slot =>
      simp only [setReader_reader,if_true,ReaderPos.replying.injEq] at hr
      subst hr
      exact List.mem_append_right _ (by simp [combineResultMsg,makeKey])
    | pullNotReady ts src slot =>
      simp only [setReader_reader,if_true,ReaderPos.replying.injEq] at hr
      subst hr
      simp [notReadyMsg,MsgHeader.kind,MsgHeader.new] at hk
    | pullMissing ts src =>
      simp only [setReader_reader,if_true,ReaderPos.replying.injEq] at hr
      subst hr
      simp [notReadyMsg,MsgHeader.kind,MsgHeader.new] at hk
    | enterWrite ts g _ hg => exact List.mem_append_left _ (ht.replying h m hr hk)
    | sendNull ts g _ hg =>
      simp only [setReader_reader,if_true] at hr
      exact absurd hr (afterSend_not_replying false hg m)
    | finishWrite ts g ok _ hg =>
      simp only [finishSend,setReader_reader,if_true] at hr
      exact absurd hr (afterSend_not_replying ok hg m)
    | _ => simp [createSlot] at hr
  constructor
  · intro g m hr hk
    by_cases hg : g = h
    · subst hg; exact hself m hr hk
    · exact hother g m hg hr hk
  · intro g m hmem hk
    rcases List.mem_append.mp hmem with hmem | hmem
    · exact List.mem_append_left _ (ht.sent g m hmem hk)
    · cases hm with
      | finishWrite ts g' ok _ hg' =>
        rcases List.mem_append.mp hmem with hmem | hmem
        · cases ok with
          | false => simp at hmem
          | true =>
            simp only [if_true,List.mem_singleton,Event.toHost.injEq] at hmem
            obtain ⟨rfl,rfl⟩ := hmem
            exact List.mem_append_left _ (ht.replying h _ (sendMsg_combineResult hg' hk) hk)
        · cases hp : s.reader h with
          | dispatching src targets => cases targets <;> simp [hp,afterSendEvents] at hmem
          | _ => simp [hp,afterSendEvents] at hmem
      | sendNull ts g' =>
        cases hp : s.reader h with
        | dispatching src targets => cases targets <;> simp [hp,afterSendEvents] at hmem
        | _ => simp [hp,afterSendEvents] at hmem
      | create ts src targets =>
        simp only [createSlot,List.mem_append,List.mem_singleton] at hmem
        split_ifs at hmem <;> simp at hmem
      | clear ts src g' rest =>
        unfold clearedEvents at hmem
        split at hmem
        · simp at hmem
        · split_ifs at hmem <;> simp at hmem
      | _ => simp at hmem

theorem resultsTaken_of_run {s : Switch N} {hist : List (Event N)}
    (hrun : Run (switchMachine N) s hist) : ResultsTaken s hist := by
  refine hrun.invariant (P := ResultsTaken) ?_ ?_
  · rintro s rfl
    exact ⟨by simp [Switch.initial],by simp⟩
  · intro s hist a s' ev _ ih _ hs
    cases switchStep_move hs with
    | accept g => exact ⟨fun h m hr hk => by simpa using ih.replying h m hr hk,
        fun g m hmem hk => by simpa using ih.sent g m (by simpa using hmem) hk⟩
    | start h =>
      refine ⟨?_,fun g m hmem hk => by simpa using ih.sent g m (by simpa using hmem) hk⟩
      intro g m hr hk
      simp only [setReader_reader] at hr
      split_ifs at hr
      simpa using ih.replying g m hr hk
    | reader h i _ _ hmove => exact hmove.resultsTaken ih
    | main _ _ hmove =>
      constructor
      · intro g m hr hk
        rw [hmove.reader] at hr
        exact List.mem_append_left _ (ih.replying g m hr hk)
      · intro g m hmem hk
        rcases List.mem_append.mp hmem with hmem | hmem
        · exact List.mem_append_left _ (ih.sent g m hmem hk)
        · cases hmove <;> simp at hmem

/-- In every run of the switch, the bitmap of a COMBINE_RESULT names exactly the experts
added into its payload if and only if no failed EXPERT_INPUT send had cleared a pending
bit of the slot since its creation; and every COMBINE_RESULT sent was taken from a slot. -/
theorem combineResult_bitmap_exact {s : Switch N} {hist : List (Event N)}
    (hrun : Run (switchMachine N) s hist) :
    (∀ pre k bitmap data post, hist = pre ++ .taken k bitmap data::post →
      data = Bytes.sum data.size (record k pre).payloads ∧
      ((∀ e, bitmap.getLsbD e = true ↔ e ∈ (record k pre).ranks) ↔
        (record k pre).cleared = [])) ∧
    (∀ g m, .toHost g m ∈ hist → m.header.kind = some .combineResult →
      .taken (makeKey m.header) m.header.expertBitmap m.payload ∈ hist) := by
  refine ⟨?_,(resultsTaken_of_run hrun).sent⟩
  intro pre k bitmap data post he
  obtain ⟨t,hist₀,a,t',ev₁,ev₂,hrun₀,-,hs,rfl⟩ := hrun.fired pre _ post he
  obtain ⟨rfl,hbits,hapart,hsum⟩ :=
    (switchStep_move hs).queueStep.taken rfl (slotsOk_of_run hrun₀)
  simp only [List.append_nil]
  refine ⟨hsum,?_,?_⟩
  · intro hiff
    rw [List.eq_nil_iff_forall_not_mem]
    intro e hcleared
    have hrank := (hiff e).mp ((hbits e).mpr (Or.inr hcleared))
    exact hapart e hrank hcleared
  · intro hnone e
    rw [hbits e,hnone]
    simp

def samplePull : Msg where
  header := { MsgHeader.new .combinePullReq 0 with runId := 1, expertBitmap := 3 }
  payload := Bytes.empty

/-- The EXPERT_INPUT to host 1 fails, host 0 answers as expert 0 and then pulls its token. -/
def failedSendRun : List (SwitchAction 2) :=
  sampleStart ++ sampleCreate ++
  [.reader 0 (.go 0),.reader 0 (.sent true),.reader 0 (.go 0),.reader 0 (.sent false),
    .reader 0 (.go 0),.reader 0 (.go 0),.reader 0 (.sent true),.reader 0 (.go 0),
    .reader 0 (.recv (sampleResult 0)),.reader 0 (.go 0),.reader 0 (.go 0),
    .reader 0 (.recv samplePull),.reader 0 (.go 0),.reader 0 (.go 0),.reader 0 (.sent true)]

/-- The result sent for the token after `n` events names expert 1, whose result is not in it. -/
def namesMissingExpert (n : ℕ) (hist : List (Event N)) : Bool :=
  match hist.drop n with
  | .taken k bitmap _::.entersWrite _::.toHost _ m::_ =>
    m.header.kind = some .combineResult && m.header.expertBitmap = bitmap &&
      bitmap.getLsbD 1 && !(record k (hist.take n)).ranks.contains 1
  | _ => false

theorem combineResult_names_missing_expert :
    ∃ (s : Switch 2) (hist pre post : List (Event 2)) (k : CombineKey) (data : Bytes) (g g' : Fin 2)
      (m : Msg), Run (switchMachine 2) s hist ∧
      hist = pre ++ .taken k m.header.expertBitmap data::.entersWrite g::.toHost g' m::post ∧
      m.header.kind = some .combineResult ∧
      ¬∀ e, m.header.expertBitmap.getLsbD e = true ↔ e ∈ (record k pre).ranks := by
  obtain ⟨s,hist,hrun,hp⟩ := exists_run_of_replay (switchMachine 2)
    (fun _ _ => true) Switch.initial failedSendRun
    (fun _ hist => namesMissingExpert 13 hist) rfl (by decide +kernel)
  unfold namesMissingExpert at hp
  split at hp
  · rename_i k bitmap data g g' m post hdrop
    simp only [Bool.and_eq_true,decide_eq_true_eq,Bool.not_eq_true',List.contains_eq_mem,
      decide_eq_false_iff_not] at hp
    obtain ⟨⟨⟨hkind,hbitmap⟩,hbit⟩,hrank⟩ := hp
    refine ⟨s,hist,hist.take 13,post,k,data,g,g',m,hrun.run,?_,hkind,?_⟩
    · rw [hbitmap,← hdrop,List.take_append_drop]
    · intro h
      rw [hbitmap] at h
      exact hrank ((h 1).mp hbit)
  · cases hp

/-- The result sent for the token after `n` events reports both experts, and neither of their
inputs had failed. -/
def namesBothExperts (n : ℕ) (hist : List (Event N)) : Bool :=
  match hist.drop n with
  | .taken k bitmap _::_ => bitmap = 3 && (record k (hist.take n)).cleared.isEmpty
  | _ => false

theorem combineResult_bitmap_exact_sample :
    ∃ (s : Switch 2) (hist pre post : List (Event 2)) (k : CombineKey) (bitmap : U64) (data : Bytes),
      Run (switchMachine 2) s hist ∧ hist = pre ++ .taken k bitmap data::post ∧
      (record k pre).cleared = [] ∧ bitmap = 3 ∧
      ∀ e, bitmap.getLsbD e = true ↔ e ∈ (record k pre).ranks := by
  obtain ⟨s,hist,hrun,hp⟩ := exists_run_of_replay (switchMachine 2)
    (fun _ _ => true) Switch.initial
    (sampleStart ++ sampleCreate ++
      [.reader 0 (.go 0),.reader 0 (.sent true),.reader 0 (.go 0),.reader 0 (.sent true),
        .reader 0 (.go 0),.reader 0 (.sent true),.reader 1 (.recv (sampleResult 1)),
        .reader 1 (.go 0),.reader 0 (.go 0),.reader 0 (.recv (sampleResult 0)),.reader 0 (.go 0),
        .reader 0 (.go 0),.reader 0 (.recv samplePull),.reader 0 (.go 0)])
    (fun _ hist => namesBothExperts 14 hist) rfl (by decide +kernel)
  unfold namesBothExperts at hp
  split at hp
  · rename_i k bitmap data post hdrop
    simp only [Bool.and_eq_true,decide_eq_true_eq,List.isEmpty_iff] at hp
    have he : hist = hist.take 14 ++ .taken k bitmap data::post := by
      rw [← hdrop,List.take_append_drop]
    exact ⟨s,hist,_,post,k,bitmap,data,hrun.run,he,hp.2,hp.1,
      ((combineResult_bitmap_exact hrun.run).1 _ k bitmap data post he).2.mpr hp.2⟩
  · cases hp

end INA2A

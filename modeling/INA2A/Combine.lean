import INA2A.SimulationSwitch

/-! What a token gets back: the sum of what its experts made of it. -/
namespace INA2A

open ByteBuffers BitWords EventMachine

variable {N : ℕ} {c : Config N} {s : System N} {hist : List (Event N)}

/-- Every run leaves the system in a state that the progress of its tokens explains. -/
theorem exists_progress (hr : Run (systemMachine c) s hist) :
    ∃ p, Follows c s p ∧ Orderly c.plan p := by
  obtain ⟨p,hf,hc⟩ := exists_course hr
  exact ⟨p,hf,orderly_of_course hc⟩

theorem card_experts (c : Config N) (h : Fin N) (i : ℕ) :
    (c.experts h i).card = popcount (c.token h i).expertBitmap := by
  have himage : (c.experts h i).map Fin.valEmbedding =
      (Finset.range 64).filter fun e => (c.token h i).expertBitmap.getLsbD e = true := by
    ext e
    simp only [Finset.mem_map,Finset.mem_filter,Finset.mem_range,Config.experts,Finset.mem_univ,
      true_and,Fin.valEmbedding_apply]
    constructor
    · rintro ⟨e,he,rfl⟩
      exact ⟨BitVec.lt_of_getLsbD he,he⟩
    · rintro ⟨-,he⟩
      exact ⟨⟨e,token_expert_lt c h i e he⟩,he,rfl⟩
  rw [← card_bits,← himage,Finset.card_map]

theorem slot_byte (c : Config N) (h : Fin N) (i : ℕ) {j : ℕ}
    (hj : j < (c.token h i).payloadLen.toNat) :
    ((c.slot h i ∅).data.get j).toNat = 2 * popcount (c.token h i).expertBitmap *
      ((c.token h i).tokenId.toNat + j) % 256 := by
  have hlen := payloadLen_toNat c h i
  change ((c.partialSum h i (c.experts h i \ ∅).card).get j).toNat = _
  rw [Finset.sdiff_empty,card_experts,Config.partialSum,attentionPayload,Bytes.tabulate_get _ hj,
    Bytes.tabulate_get _ hj,BitVec.toNat_mul,BitVec.toNat_ofNat,BitVec.toNat_setWidth,
    BitVec.toNat_add,BitVec.toNat_ofNat]
  generalize 2 * popcount (c.token h i).expertBitmap = k
  have hmod : (((c.token h i).tokenId.toNat + j % 2 ^ 64) % 2 ^ 64) % 2 ^ 8 =
      ((c.token h i).tokenId.toNat + j) % 2 ^ 8 := by omega
  rw [hmod,← Nat.mul_mod]

/-- Every COMBINE_RESULT a host has stored for a token is the sum, over the experts that the
token selects, of the doubled payload of that token. -/
theorem combine_payload (c : Config N) {s : System N} {hist : List (Event N)}
    (hr : Run (systemMachine c) s hist) (h : Fin N) (t : ℕ) (st : TokenWindowState)
    (hst : (s.host h).tokenStates[t]? = some st) (hdone : st.combineDone = true) :
    ∃ token, (c.workload h)[t]? = some token ∧
      st.combinePayload.size = token.payloadLen.toNat ∧
      ∀ i < token.payloadLen.toNat, (st.combinePayload.get i).toNat =
        2 * popcount token.expertBitmap * (token.tokenId.toNat + i) % 256 := by
  obtain ⟨p,hf,hp⟩ := exists_progress hr
  have hm := hf.hosts h
  have ht : t < c.num h := by
    rw [← hm.length]
    exact (List.getElem?_eq_some_iff.mp hst).1
  have hmatch := hm.tokens t st hst
  refine ⟨c.token h t,by rw [workload_get,if_pos ht],?_⟩
  rw [hmatch.combinePayload (hmatch.combineDone ▸ hdone)]
  exact ⟨rfl,fun i hi => slot_byte c h t hi⟩

/-- One host that is its own expert and has as many tokens as its window holds. -/
def soloConfig (mode : LoopMode) (tokens : Fin 8) : Config 1 where
  args _ :=
    { numTokens := tokens
      numTokens_lt := by omega
      topk := 1
      windowSize := tokens
      windowSize_ge := by omega
      windowSize_lt := by omega
      mode := mode
      shuffle := fun _ => [0]
      shuffle_perm := fun _ => .refl _ }
  hosts_le := by decide

def soloPush (n : ℕ) : List (Action 1) := List.replicate n (.host 0 (.push 0))
def soloCompute : List (Action 1) := List.replicate 4 (.host 0 (.compute 0))
def soloSend : List (Action 1) := [.host 0 .send,.host 0 .send,.write 0]
def soloRead : List (Action 1) := [.host 0 (.read 0),.receive 0,.host 0 (.read 0)]
def soloReader (n : ℕ) : List (Action 1) := List.replicate n (.reader 0 0)
def soloTick : List (Action 1) := [.host 0 (.tick 0 0)]

/-- A token is dispatched, its expert works for it, and its result is pulled. -/
def soloRun : List (Action 1) :=
  [.accept 0,.start 0] ++ soloPush 2 ++ soloCompute ++ soloSend ++ soloReader 9 ++ soloRead ++
  soloRead ++ soloCompute ++ soloSend ++ soloReader 3 ++ soloTick ++ soloPush 2 ++ soloSend ++
  soloReader 5 ++ soloRead

theorem combine_payload_sample : ∃ (s : System 1) (hist : List (Event 1)) (st : TokenWindowState),
    Run (systemMachine (soloConfig .fourLoops 1)) s hist ∧
    (s.host 0).tokenStates[0]? = some st ∧ st.combineDone = true ∧
    ∃ token, ((soloConfig .fourLoops 1).workload 0)[0]? = some token ∧
      st.combinePayload.size = token.payloadLen.toNat ∧
      ∀ i < token.payloadLen.toNat, (st.combinePayload.get i).toNat =
        2 * popcount token.expertBitmap * (token.tokenId.toNat + i) % 256 := by
  obtain ⟨s,hist,hrun,hp⟩ := exists_run_of_replay (systemMachine (soloConfig .fourLoops 1))
    (fun _ _ => true) (System.initial _) soloRun
    (fun s _ => (s.host 0).tokenStates[0]?.any (·.combineDone)) rfl (by decide +kernel)
  obtain ⟨st,hst,hdone⟩ := (Option.any_eq_true _ _).mp hp
  exact ⟨s,hist,st,hrun.run,hst,hdone,combine_payload _ hrun.run 0 0 st hst hdone⟩

end INA2A

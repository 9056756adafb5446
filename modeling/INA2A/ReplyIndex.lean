import INA2A.Traffic

/-! Which token a reply touches: `handle_incoming_message` narrows `global_idx` to an `int`
before it checks it. -/
namespace INA2A

open ByteBuffers BitWords EventMachine

variable {N : ℕ} {h : Host} {m : Msg} {now : ℕ}

/-- Only the token that the whole of `global_idx` names may change, and none if there is no
such token. -/
structure TouchesNamed (N : ℕ) (h : Host) (m : Msg) (now : ℕ) : Prop where
  missing : h.tokenStates.length ≤ m.header.globalIdx.toNat →
    (handleIncomingMessage (N:=N) h m now).1.tokenStates = h.tokenStates
  named : m.header.globalIdx.toNat < h.tokenStates.length → ∀ i ≠ m.header.globalIdx.toNat,
    (handleIncomingMessage (N:=N) h m now).1.tokenStates[i]? = h.tokenStates[i]?

/-- What a message writes into the token it is about. -/
def replyWrite (m : Msg) (now : ℕ) (st : TokenWindowState) : TokenWindowState :=
  match m.header.kind with
  | some .ack => { st with dispatchAcked := true }
  | some .notReady => { st with
      pullInflight := false
      pullAttempts := st.pullAttempts + 1
      nextPullTime := now + 10000000 }
  | some .combineResult => { st with
      combineDone := true
      pullInflight := false
      combinePayload := m.payload }
  | _ => st

def AlreadyWritten (m : Msg) (st : TokenWindowState) : Prop :=
  match m.header.kind with
  | some .ack => st.dispatchAcked = true
  | some .notReady => False
  | some .combineResult =>
    st.pullInflight = false ∧ st.combineDone = true ∧ st.combinePayload = m.payload
  | _ => True

theorem replyWrite_eq_self (st : TokenWindowState) :
    replyWrite m now st = st ↔ AlreadyWritten m st := by
  unfold replyWrite AlreadyWritten
  cases st
  split <;> simp [eq_comm]

theorem updateToken_get (h : Host) (g : U64) (f : TokenWindowState → TokenWindowState) (j : ℕ) :
    (updateToken h g f).tokenStates[j]? =
      if tokenIndexOf h g = some j then h.tokenStates[j]?.map f else h.tokenStates[j]? := by
  unfold updateToken
  cases hi : tokenIndexOf h g with
  | none => simp
  | some i =>
    dsimp only
    rw [updateTokens_get _ (List.nodup_singleton i)]
    simp [eq_comm]

theorem handleIncomingMessage_get (h : Host) (m : Msg) (now j : ℕ) :
    (handleIncomingMessage (N:=N) h m now).1.tokenStates[j]? =
      if tokenIndexOf h m.header.globalIdx = some j then
        h.tokenStates[j]?.map (replyWrite m now)
      else h.tokenStates[j]? := by
  have hquiet (hw : replyWrite m now = id) : h.tokenStates[j]? =
      if tokenIndexOf h m.header.globalIdx = some j then
        h.tokenStates[j]?.map (replyWrite m now) else h.tokenStates[j]? := by
    rw [hw,Option.map_id,id,ite_self]
  unfold handleIncomingMessage
  split
  case h_1 hk =>
    rw [updateToken_get]
    congr 2
    funext st
    simp only [replyWrite,hk]
  case h_2 hk =>
    apply hquiet
    funext st
    simp only [replyWrite,hk,id]
  case h_3 hk =>
    rw [updateToken_get]
    congr 2
    funext st
    simp only [replyWrite,hk]
  case h_4 hk =>
    rw [updateToken_get]
    congr 2
    funext st
    simp only [replyWrite,hk]
  case h_5 hk =>
    apply hquiet
    funext st
    simp only [replyWrite,hk,id]
  case h_6 =>
    apply hquiet
    funext st
    unfold replyWrite
    split
    · contradiction
    · contradiction
    · contradiction
    · rfl

theorem tokenIndexOf_some {g : U64} {i : ℕ} (hi : tokenIndexOf h g = some i) :
    i < 2 ^ 31 ∧ i < h.tokenStates.length ∧ g.toNat % 2 ^ 32 = i := by
  unfold tokenIndexOf at hi
  dsimp only at hi
  split_ifs at hi with hrange
  obtain ⟨hlow,hsize⟩ := hrange
  have hle := int32_le (x := h.tokenStates.length) (by omega)
  have hnarrow : (g.setWidth 32).toNat = g.toNat % 2 ^ 32 := BitVec.toNat_setWidth 32 g
  rw [Option.some.injEq] at hi
  rw [BitVec.toInt_eq_toNat_cond] at hi hlow hsize
  split_ifs at hi hlow hsize <;> omega

theorem tokenIndexOf_small {g : U64} {i : ℕ} (hg : g.toNat < 2 ^ 31)
    (hi : tokenIndexOf h g = some i) : i = g.toNat := by
  obtain ⟨-,-,hmod⟩ := tokenIndexOf_some hi
  omega

theorem touchesNamed_of_small (h : Host) (now : ℕ) (hg : m.header.globalIdx.toNat < 2 ^ 31) :
    TouchesNamed N h m now := by
  have hother : ∀ j, tokenIndexOf h m.header.globalIdx ≠ some j →
      (handleIncomingMessage (N:=N) h m now).1.tokenStates[j]? = h.tokenStates[j]? := by
    intro j hj
    rw [handleIncomingMessage_get,if_neg hj]
  constructor
  · intro hmissing
    apply List.ext_getElem?
    intro j
    refine hother j fun hj => ?_
    obtain ⟨-,hlt,-⟩ := tokenIndexOf_some hj
    have := tokenIndexOf_small hg hj
    omega
  · intro _ j hne
    exact hother j fun hj => hne (tokenIndexOf_small hg hj)

/-- Exactly when a message keeps to the token it names. -/
theorem touchesNamed_iff (h : Host) (m : Msg) (now : ℕ) : TouchesNamed N h m now ↔
    m.header.globalIdx.toNat < 2 ^ 31 ∨
      ∀ i st, tokenIndexOf h m.header.globalIdx = some i → h.tokenStates[i]? = some st →
        AlreadyWritten m st := by
  constructor
  · intro htouches
    by_cases hg : m.header.globalIdx.toNat < 2 ^ 31
    · exact Or.inl hg
    right
    intro i st hi hst
    obtain ⟨hsmall,-,-⟩ := tokenIndexOf_some hi
    -- the entry that is written is not the one that is named
    have hkept : (handleIncomingMessage (N:=N) h m now).1.tokenStates[i]? = h.tokenStates[i]? := by
      by_cases hnamed : m.header.globalIdx.toNat < h.tokenStates.length
      · exact htouches.named hnamed i (by omega)
      · rw [htouches.missing (Nat.not_lt.mp hnamed)]
    rw [handleIncomingMessage_get,if_pos hi,hst,Option.map_some,Option.some.injEq] at hkept
    exact (replyWrite_eq_self st).mp hkept
  · rintro (hg | hwritten)
    · exact touchesNamed_of_small h now hg
    have hsame : (handleIncomingMessage (N:=N) h m now).1.tokenStates = h.tokenStates := by
      apply List.ext_getElem?
      intro j
      rw [handleIncomingMessage_get]
      split_ifs with hj
      · cases hst : h.tokenStates[j]? with
        | none => rfl
        | some st => rw [Option.map_some,(replyWrite_eq_self st).mpr (hwritten j st hj hst)]
      · rfl
    exact ⟨fun _ => hsame,fun _ i _ => by rw [hsame]⟩

def oneToken : HostEnv where
  rank := 0
  workload := [makeToken 1 0 0 0 1 1 [0]]
  windowSize := 1
  mode := .fourLoops

/-- An ACK for token 2³². -/
def wrappedAck : Msg where
  header := { MsgHeader.new .ack 0 with globalIdx := 0x100000000 }
  payload := Bytes.empty

theorem wrappedAck_touches :
    (Host.initial oneToken).tokenStates.map TokenWindowState.dispatchAcked = [false] ∧
    (handleIncomingMessage (N:=1) (Host.initial oneToken) wrappedAck 0).1.tokenStates.map
      TokenWindowState.dispatchAcked = [true] ∧
    ¬TouchesNamed 1 (Host.initial oneToken) wrappedAck 0 := by
  have hmarked : (handleIncomingMessage (N:=1) (Host.initial oneToken) wrappedAck 0).1.tokenStates.map
      TokenWindowState.dispatchAcked = [true] := rfl
  refine ⟨rfl,hmarked,?_⟩
  intro htouches
  rw [htouches.missing (by decide)] at hmarked
  exact absurd hmarked (by decide)

/-- Whatever the state of the host, a message that reaches it in a run names its token by an
index that narrowing keeps. -/
theorem run_touchesNamed {c : Config N} {s : System N} {hist : List (Event N)}
    (hr : Run (systemMachine c) s hist) {g : Fin N} (hm : .toHost g m ∈ hist) (h : Host) (now : ℕ) :
    TouchesNamed N h m now := by
  have hsmall : ∀ {i : ℕ}, i < c.num g → (BitVec.ofNat 64 i).toNat < 2 ^ 31 := by
    intro i hi
    have := num_lt c g
    rw [BitVec.toNat_ofNat,Nat.mod_eq_of_lt (by omega)]
    omega
  rcases run_genuine hr _ hm with ⟨i,ts,hi,rfl⟩ | ⟨i,ts,hi,rfl⟩ | ⟨i,ts,hi,rfl⟩ | ⟨o,i,ts,hi,rfl⟩ |
    ⟨rid,ts,rfl⟩
  · exact touchesNamed_of_small h now (hsmall hi)
  · exact touchesNamed_of_small h now (hsmall hi)
  · exact touchesNamed_of_small h now (hsmall hi)
  · exact (touchesNamed_iff h _ now).mpr (Or.inr fun _ _ _ _ => trivial)
  · exact (touchesNamed_iff h _ now).mpr (Or.inr fun _ _ _ _ => trivial)

end INA2A

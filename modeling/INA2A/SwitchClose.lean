import INA2A.SwitchSteps

/-! Closing the connections.  The reader that sees the last FINISH closes every connection,
while the other readers are tested for it only between messages. -/
namespace INA2A

open ByteBuffers BitWords EventMachine

variable {N : ℕ}

def Event.closes (g : Fin N) : Event N → Bool
  | .closed g' => g' = g
  | _ => false

def Event.enters (g : Fin N) : Event N → Bool
  | .entersRead g' | .entersWrite g' => g' = g
  | _ => false

def SwitchAction.thread : SwitchAction N → Option (Fin N)
  | .start h => some h
  | .reader h _ => some h
  | _ => none

/-- Reader `r` is inside `sr_read` or `sr_write` on the connection of host `g`. -/
def Inside (s : Switch N) (r g : Fin N) : Prop :=
  (r = g ∧ s.reader r = .reading) ∨ (s.writing r ≠ none ∧ sendTarget r (s.reader r) = some g)

def closeCount (g : Fin N) (hist : List (Event N)) : ℕ := hist.countP (Event.closes g)

/-- Nothing enters `sr_read` or `sr_write` on `g` once `g` has been closed. -/
def QuietAfterClose (g : Fin N) (hist : List (Event N)) : Prop :=
  ∀ pre post, hist = pre ++ .closed g::post → ∀ e ∈ post, e.enters g = false

/-- Every run closes each connection exactly once, when no other thread is inside a call on
it, and nobody enters a call on it afterwards. -/
def ClosesSafely (N : ℕ) : Prop :=
  ∀ (s : Switch N) (hist : List (Event N)), Run (switchMachine N) s hist →
    (∀ a s' ev g, switchStep s a = some (s',ev) → .closed g ∈ ev →
      ∀ r, a.thread ≠ some r → ¬Inside s r g) ∧
    (∀ g, QuietAfterClose g hist) ∧
    (∀ g, closeCount g hist ≤ 1) ∧
    (s.main = .done → ∀ g, closeCount g hist = 1)

theorem QuietAfterClose.append {g : Fin N} {hist ev : List (Event N)}
    (h : QuietAfterClose g hist) (hev : ∀ e ∈ ev, e.enters g = false) :
    QuietAfterClose g (hist ++ ev) := by
  intro pre post he e hmem
  rcases List.append_eq_append_iff.mp he with ⟨mid,rfl,hmid⟩ | ⟨mid,rfl,hmid⟩
  · exact hev e (by rw [hmid]; simp [hmem])
  · cases mid with
    | nil =>
      simp only [List.nil_append] at hmid
      exact hev e (by rw [← hmid]; simp [hmem])
    | cons e' mid =>
      simp only [List.cons_append,List.cons.injEq] at hmid
      obtain ⟨rfl,rfl⟩ := hmid
      rcases List.mem_append.mp hmem with hmem | hmem
      · exact h pre mid rfl e hmem
      · exact hev e hmem

theorem quietAfterClose_of_closeCount {g : Fin N} {hist : List (Event N)}
    (h : closeCount g hist = 0) : QuietAfterClose g hist := by
  rintro pre post rfl
  simp [closeCount,Event.closes] at h

theorem closeCount_append (g : Fin N) (hist ev : List (Event N)) :
    closeCount g (hist ++ ev) = closeCount g hist + closeCount g ev := by
  simp [closeCount]

@[simp] theorem closeCount_nil (g : Fin N) : closeCount g [] = 0 := rfl

@[simp] theorem closeCount_closed (g : Fin N) : closeCount g [.closed g] = 1 := by
  simp [closeCount,Event.closes]

theorem closeCount_eq_zero {g : Fin N} {ev : List (Event N)} (h : ∀ e ∈ ev, e.closes g = false) :
    closeCount g ev = 0 := by
  simpa [closeCount] using h

def ReaderPos.calm : ReaderPos N → Bool
  | .closing _ | .nulling _ _ => false
  | _ => true

/-- What a step of a reader does to the connections. -/
inductive CloseStep (s : Switch N) (h : Fin N) (s' : Switch N) (ev : List (Event N)) : Prop
  | calm : (s.reader h).isExited = false → (s.reader h).calm = true → (s'.reader h).calm = true →
      s'.conn = s.conn → (∀ g, ∀ e ∈ ev, e.closes g = false) → CloseStep s h s' ev
  | begin (rid) : s.reader h = .broadcasting rid [] → s'.reader h = .closing (snapshotHosts s) →
      s'.conn = s.conn → ev = [] → CloseStep s h s' ev
  | close (g rest) : s.reader h = .closing (g::rest) → s.conn g = true →
      s'.reader h = .nulling g rest → s'.conn = s.conn → ev = [.closed g] → CloseStep s h s' ev
  | skip (g rest) : s.reader h = .closing (g::rest) → s.conn g = false →
      s'.reader h = .closing rest → s'.conn = s.conn → ev = [] → CloseStep s h s' ev
  | null (g rest) : s.reader h = .nulling g rest → s'.reader h = .closing rest →
      s'.conn = Function.update s.conn g false → ev = [] → CloseStep s h s' ev
  | leave : s.reader h = .closing [] → s'.reader h = .exited false → s'.conn = s.conn →
      ev = [] → CloseStep s h s' ev

theorem afterSend_calm (ok : Bool) {h g : Fin N} {p : ReaderPos N}
    (hg : sendTarget h p = some g) :
    p.isExited = false ∧ p.calm = true ∧ (afterSend ok p).calm = true := by
  cases p with
  | dispatching m targets =>
    cases targets with
    | nil => exact ⟨rfl,rfl,rfl⟩
    | cons g rest => cases ok <;> exact ⟨rfl,rfl,rfl⟩
  | replying response => exact ⟨rfl,rfl,rfl⟩
  | broadcasting rid rest =>
    cases rest with
    | nil => cases hg
    | cons g rest => exact ⟨rfl,rfl,rfl⟩
  | _ => cases hg

theorem afterSendEvents_closes (p : ReaderPos N) (g : Fin N) :
    ∀ e ∈ afterSendEvents p, e.closes g = false := by
  intro e he
  cases p with
  | dispatching m targets => cases targets <;> simp_all [afterSendEvents,Event.closes]
  | _ => simp [afterSendEvents] at he

theorem clearedEvents_closes (queue : CombineQueue) (key : CombineKey) (rank : ℕ) (g : Fin N) :
    ∀ e ∈ clearedEvents queue key rank, e.closes g = false := by
  intro e he
  unfold clearedEvents at he
  split at he
  · cases he
  · split_ifs at he <;> simp_all [Event.closes]

theorem ReaderMove.closeStep {s s' : Switch N} {h : Fin N} {i : ReaderInput}
    {ev : List (Event N)} (hm : ReaderMove s h i s' ev) : CloseStep s h s' ev := by
  cases hm with
  | stopRunning ts rid _ hp => exact .begin rid hp (by simp) rfl rfl
  | close ts g rest _ hp hc => exact .close g rest hp hc (by simp) rfl rfl
  | skipClosed ts g rest _ hp hc => exact .skip g rest hp hc (by simp) rfl rfl
  | null ts g rest _ hp => exact .null g rest hp (by simp) rfl rfl
  | endClosing ts _ hp => exact .leave hp (by simp) rfl rfl
  | sendNull ts g _ hg hc =>
    obtain ⟨hx,hcalm,hcalm'⟩ := afterSend_calm false hg
    exact .calm hx hcalm (by simpa using hcalm') rfl fun g => afterSendEvents_closes _ g
  | enterWrite ts g _ hg hc =>
    obtain ⟨hx,hcalm,-⟩ := afterSend_calm false hg
    exact .calm hx hcalm hcalm rfl (by simp [Event.closes])
  | finishWrite ts g ok hw hg =>
    obtain ⟨hx,hcalm,hcalm'⟩ := afterSend_calm ok hg
    refine .calm hx hcalm (by simpa [finishSend] using hcalm') rfl ?_
    intro g' e he
    rcases List.mem_append.mp he with he | he
    · cases ok <;> simp_all [Event.closes]
    · exact afterSendEvents_closes _ _ e he
  | create ts m targets _ hp =>
    refine .calm (by simp [hp,ReaderPos.isExited]) (by simp [hp,ReaderPos.calm])
      (by simp [createSlot,ReaderPos.calm]) rfl ?_
    intro g e he
    simp only [createSlot,List.mem_append] at he
    rcases he with he | he
    · split_ifs at he <;> simp_all [Event.closes]
    · simp_all [Event.closes]
  | clear ts m g rest _ hp =>
    exact .calm (by simp [hp,ReaderPos.isExited]) (by simp [hp,ReaderPos.calm])
      (by simp [ReaderPos.calm]) rfl (clearedEvents_closes _ _ _)
  | _ => refine .calm ?_ ?_ ?_ rfl ?_ <;> simp_all [ReaderPos.isExited,ReaderPos.calm,Event.closes]

theorem mem_snapshotHosts {s : Switch N} {g : Fin N} : g ∈ snapshotHosts s ↔ s.hosts g = true := by
  simp [snapshotHosts]

/-- With one host, either nothing is closed yet, or the closing thread is about to null the
pointer, or the connection is closed and its only reader has left the loop. -/
inductive SoloPhase (s : Switch 1) (hist : List (Event 1)) : Prop
  | before : closeCount 0 hist = 0 → s.conn 0 = s.hosts 0 →
      (∀ rest, s.reader 0 = .closing rest → 0 ∈ rest) →
      (∀ g rest, s.reader 0 ≠ .nulling g rest) →
      (s.main = .joining ∨ (s.hosts 0 = true ∧ (s.reader 0).isExited = true ∧
        ∃ rest, s.main = .closing rest ∧ 0 ∈ rest)) →
      SoloPhase s hist
  | byReader (rest) : closeCount 0 hist = 1 → QuietAfterClose 0 hist → s.hosts 0 = true →
      s.reader 0 = .nulling 0 rest → s.main = .joining → SoloPhase s hist
  | byMain (rest) : closeCount 0 hist = 1 → QuietAfterClose 0 hist → s.hosts 0 = true →
      (s.reader 0).isExited = true → s.main = .nulling 0 rest → SoloPhase s hist
  | after : closeCount 0 hist = 1 → QuietAfterClose 0 hist → s.hosts 0 = true →
      s.conn 0 = false → ((s.reader 0).isExited = true ∨ ∃ rest, s.reader 0 = .closing rest) →
      (∀ g rest, s.main ≠ .nulling g rest) → SoloPhase s hist

theorem SoloPhase.initial : SoloPhase Switch.initial [] :=
  .before rfl rfl (by simp [Switch.initial]) (by simp [Switch.initial]) (Or.inl rfl)

theorem SoloPhase.closes_le {s : Switch 1} {hist : List (Event 1)} (hp : SoloPhase s hist) :
    closeCount 0 hist ≤ 1 := by
  cases hp <;> omega

theorem SoloPhase.quiet {s : Switch 1} {hist : List (Event 1)} (hp : SoloPhase s hist) :
    QuietAfterClose 0 hist := by
  cases hp with
  | before hcount => exact quietAfterClose_of_closeCount hcount
  | byReader rest _ hq => exact hq
  | byMain rest _ hq => exact hq
  | after _ hq => exact hq

theorem ReaderPos.calm_ne {p : ReaderPos N} (hp : p.calm = true) :
    (∀ rest, p ≠ .closing rest) ∧ ∀ g rest, p ≠ .nulling g rest := by
  constructor
  · rintro rest rfl; cases hp
  · rintro g rest rfl; cases hp

theorem SoloPhase.readerStep {s s' : Switch 1} {i : ReaderInput} {hist ev : List (Event 1)}
    (hp : SoloPhase s hist) (hreg : s.hosts 0 = true) (hm : ReaderMove s 0 i s' ev) :
    SoloPhase s' (hist ++ ev) := by
  have hhosts : s'.hosts 0 = true := by rw [hm.hosts,hreg]
  have hmain := hm.main
  cases hm.closeStep with
  | calm hx hcalm hcalm' hconn hev =>
    obtain ⟨hne,hne'⟩ := ReaderPos.calm_ne hcalm'
    cases hp with
    | before hcount hc _ _ hjoin =>
      refine .before ?_ (by rw [hconn,hc,hreg,hhosts]) (fun rest h => absurd h (hne rest)) hne' ?_
      · rw [closeCount_append,hcount,closeCount_eq_zero (hev 0)]
      · rcases hjoin with hjoin | ⟨-,hexit,-⟩
        · exact Or.inl (hmain.trans hjoin)
        · simp [hx] at hexit
    | byReader rest _ _ _ hn => simp [hn,ReaderPos.calm] at hcalm
    | byMain rest _ _ _ hexit => simp [hx] at hexit
    | after _ _ _ _ hend =>
      rcases hend with hexit | ⟨rest,hn⟩
      · simp [hx] at hexit
      · simp [hn,ReaderPos.calm] at hcalm
  | begin rid hp' hn hconn hev =>
    subst hev
    cases hp with
    | before hcount hc _ _ hjoin =>
      refine .before (by simpa using hcount) (by rw [hconn,hc,hreg,hhosts]) ?_ (by simp [hn]) ?_
      · intro rest h
        rw [hn,ReaderPos.closing.injEq] at h
        subst h
        exact mem_snapshotHosts.mpr hreg
      · rcases hjoin with hjoin | ⟨-,hexit,-⟩
        · exact Or.inl (hmain.trans hjoin)
        · simp [hp',ReaderPos.isExited] at hexit
    | byReader rest _ _ _ hn' => simp [hn'] at hp'
    | byMain rest _ _ _ hexit => simp [hp',ReaderPos.isExited] at hexit
    | after _ _ _ _ hend => simp [hp',ReaderPos.isExited] at hend
  | close g rest hp' hc hn hconn hev =>
    subst hev
    obtain rfl := Subsingleton.elim g 0
    cases hp with
    | before hcount _ _ _ hjoin =>
      refine .byReader rest ?_ ?_ hhosts hn ?_
      · rw [closeCount_append,hcount,closeCount_closed]
      · exact (quietAfterClose_of_closeCount hcount).append (by simp [Event.enters])
      · rcases hjoin with hjoin | ⟨-,hexit,-⟩
        · exact hmain.trans hjoin
        · simp [hp',ReaderPos.isExited] at hexit
    | byReader rest _ _ _ hn' => simp [hn'] at hp'
    | byMain rest _ _ _ hexit => simp [hp',ReaderPos.isExited] at hexit
    | after _ _ _ hc' => simp [hc] at hc'
  | skip g rest hp' hc hn hconn hev =>
    subst hev
    obtain rfl := Subsingleton.elim g 0
    cases hp with
    | before _ hc' => simp [hc,hreg] at hc'
    | byReader rest _ _ _ hn' => simp [hn'] at hp'
    | byMain rest _ _ _ hexit => simp [hp',ReaderPos.isExited] at hexit
    | after hcount hq _ _ _ hmain' =>
      exact .after (by simpa using hcount) (by simpa using hq) hhosts (by rw [hconn,hc])
        (Or.inr ⟨rest,hn⟩) (by rwa [hmain])
  | null g rest hp' hn hconn hev =>
    subst hev
    obtain rfl := Subsingleton.elim g 0
    cases hp with
    | before _ _ _ hnull => exact absurd hp' (hnull _ _)
    | byReader rest' hcount hq _ _ hjoin =>
      exact .after (by simpa using hcount) (by simpa using hq) hhosts (by simp [hconn])
        (Or.inr ⟨rest,hn⟩) (by simp [hmain,hjoin])
    | byMain rest _ _ _ hexit => simp [hp',ReaderPos.isExited] at hexit
    | after _ _ _ _ hend => simp [hp',ReaderPos.isExited] at hend
  | leave hp' hn hconn hev =>
    subst hev
    cases hp with
    | before _ _ hmem => exact absurd (hmem _ hp') (by simp)
    | byReader rest _ _ _ hn' => simp [hn'] at hp'
    | byMain rest _ _ _ hexit => simp [hp',ReaderPos.isExited] at hexit
    | after hcount hq _ hc _ hmain' =>
      exact .after (by simpa using hcount) (by simpa using hq) hhosts (by rw [hconn,hc])
        (Or.inl (by simp [hn,ReaderPos.isExited])) (by rwa [hmain])

theorem SoloPhase.mainStep {s s' : Switch 1} {hist ev : List (Event 1)}
    (hp : SoloPhase s hist) (hreg : Registered s) (hm : MainMove s s' ev) :
    SoloPhase s' (hist ++ ev) := by
  cases hm with
  | joined hj hexit =>
    have hh : s.hosts 0 = true := by
      refine hreg.reader 0 ?_ 0
      intro hn
      simpa [hn,ReaderPos.isExited] using hexit 0
    cases hp with
    | before hcount hc _ hn _ =>
      refine .before (by simpa using hcount) hc ?_ hn
        (Or.inr ⟨hh,hexit 0,_,rfl,mem_snapshotHosts.mpr hh⟩)
      intro rest hr
      simpa [show s.reader 0 = .closing rest from hr,ReaderPos.isExited] using hexit 0
    | byReader rest _ _ _ hn => simpa [hn,ReaderPos.isExited] using hexit 0
    | byMain rest _ _ _ _ hn => simp [hn] at hj
    | after hcount hq _ hc hend _ =>
      exact .after (by simpa using hcount) (by simpa using hq) hh hc hend (by simp)
  | close g rest hj hc =>
    obtain rfl := Subsingleton.elim g 0
    cases hp with
    | before hcount _ _ _ hjoin =>
      rcases hjoin with hjoin | ⟨hh,hexit,-⟩
      · simp [hj] at hjoin
      · refine .byMain rest ?_ ?_ hh hexit rfl
        · rw [closeCount_append,hcount,closeCount_closed]
        · exact (quietAfterClose_of_closeCount hcount).append (by simp [Event.enters])
    | byReader rest _ _ _ _ hn => simp [hn] at hj
    | byMain rest _ _ _ _ hn => simp [hn] at hj
    | after _ _ _ hc' => simp [hc] at hc'
  | skipClosed g rest hj hc =>
    obtain rfl := Subsingleton.elim g 0
    cases hp with
    | before _ hc' _ _ hjoin =>
      rcases hjoin with hjoin | ⟨hh,-⟩
      · simp [hj] at hjoin
      · simp [hc,hh] at hc'
    | byReader rest _ _ _ _ hn => simp [hn] at hj
    | byMain rest _ _ _ _ hn => simp [hn] at hj
    | after hcount hq hh hc' hend _ =>
      exact .after (by simpa using hcount) (by simpa using hq) hh hc' hend (by simp)
  | null g rest hj =>
    obtain rfl := Subsingleton.elim g 0
    cases hp with
    | before _ _ _ _ hjoin => simp [hj] at hjoin
    | byReader rest _ _ _ _ hn => simp [hn] at hj
    | byMain rest' hcount hq hh hexit _ =>
      exact .after (by simpa using hcount) (by simpa using hq) hh (by simp) (Or.inl hexit) (by simp)
    | after _ _ _ _ _ hn => exact absurd hj (hn _ _)
  | finish hj =>
    cases hp with
    | before _ _ _ _ hjoin => simp [hj] at hjoin
    | byReader rest _ _ _ _ hn => simp [hn] at hj
    | byMain rest _ _ _ _ hn => simp [hn] at hj
    | after hcount hq hh hc hend _ =>
      exact .after (by simpa using hcount) (by simpa using hq) hh hc hend (by simp)

theorem SoloPhase.step {s s' : Switch 1} {a : SwitchAction 1} {hist ev : List (Event 1)}
    (hp : SoloPhase s hist) (hreg : Registered s) (hm : SwitchMove s a s' ev) :
    SoloPhase s' (hist ++ ev) := by
  cases hm with
  | accept g hg =>
    obtain rfl := Subsingleton.elim g 0
    cases hp with
    | before hcount _ hr hn hjoin =>
      refine .before (by simpa using hcount) (by simp) hr hn ?_
      rcases hjoin with hjoin | ⟨hh,-⟩
      · exact Or.inl hjoin
      · simp [hg] at hh
    | byReader rest _ _ hh => simp [hg] at hh
    | byMain rest _ _ hh => simp [hg] at hh
    | after _ _ hh => simp [hg] at hh
  | start h hr hall =>
    obtain rfl := Subsingleton.elim h 0
    cases hp with
    | before hcount hc _ _ hjoin =>
      refine .before (by simpa using hcount) hc (by simp) (by simp) ?_
      rcases hjoin with hjoin | ⟨-,hexit,-⟩
      · exact Or.inl hjoin
      · simp [hr,ReaderPos.isExited] at hexit
    | byReader rest _ _ _ hn => simp [hr] at hn
    | byMain rest _ _ _ hexit => simp [hr,ReaderPos.isExited] at hexit
    | after _ _ _ _ hend => simp [hr,ReaderPos.isExited] at hend
  | reader h i _ _ hmove =>
    obtain rfl := Subsingleton.elim h 0
    exact hp.readerStep (hreg.reader 0 hmove.started 0) hmove
  | main _ _ hmove => exact hp.mainStep hreg hmove

theorem soloPhase_of_run {s : Switch 1} {hist : List (Event 1)}
    (hrun : Run (switchMachine 1) s hist) : SoloPhase s hist := by
  refine hrun.invariant ?_ ?_
  · rintro s rfl
    exact SoloPhase.initial
  · intro s hist a s' ev hrun ih _ hs
    exact ih.step (registered_of_run hrun) (switchStep_move hs)

theorem closesSafely_one : ClosesSafely 1 := by
  intro s hist hrun
  have hphase := soloPhase_of_run hrun
  refine ⟨?_,?_,?_,?_⟩
  · intro a s' ev g hs hmem r hthread hinside
    obtain rfl := Subsingleton.elim r 0
    cases switchStep_move hs with
    | accept g => cases hmem
    | start h =>
      obtain rfl := Subsingleton.elim h 0
      exact hthread rfl
    | reader h =>
      obtain rfl := Subsingleton.elim h 0
      exact hthread rfl
    | main _ _ hmove =>
      -- `main` closes only after it has joined the reader
      cases hmove with
      | close g rest hj hc =>
        have hexit : (s.reader 0).isExited = true := by
          cases hphase with
          | before _ _ _ _ hjoin =>
            rcases hjoin with hjoin | ⟨-,hexit,-⟩
            · simp [hj] at hjoin
            · exact hexit
          | byReader rest _ _ _ _ hn => simp [hn] at hj
          | byMain rest _ _ _ hexit _ => exact hexit
          | after _ _ _ hc' =>
            obtain rfl := Subsingleton.elim g 0
            simp [hc] at hc'
        rcases hinside with ⟨-,hread⟩ | ⟨-,htarget⟩
        · simp [hread,ReaderPos.isExited] at hexit
        · simp [(afterSend_calm false htarget).1] at hexit
      | _ => simp at hmem
  · intro g
    obtain rfl := Subsingleton.elim g 0
    exact hphase.quiet
  · intro g
    obtain rfl := Subsingleton.elim g 0
    exact hphase.closes_le
  · intro hdone g
    obtain rfl := Subsingleton.elim g 0
    cases hphase with
    | before _ _ _ _ hjoin => simp [hdone] at hjoin
    | byReader rest hcount => exact hcount
    | byMain rest hcount => exact hcount
    | after hcount => exact hcount

def Reached (s : Switch N) : Prop := ∃ hist, Run (switchMachine N) s hist

theorem Reached.step {s : Switch N} (h : Reached s) (a : SwitchAction N) (s' : Switch N)
    (ev : List (Event N)) (hs : switchStep s a = some (s',ev)) : Reached s' := by
  obtain ⟨hist,hrun⟩ := h
  exact ⟨_,Run.step hrun hs⟩

/-- All hosts registered, no slot, nothing being written. -/
def openSwitch (reader : Fin N → ReaderPos N) (finished : Finset (Fin N)) : Switch N where
  hosts _ := true
  conn _ := true
  opened _ := true
  combineQueue _ := none
  finishedHosts := finished
  running := true
  reader := reader
  writing _ := none
  main := .joining

theorem snapshotHosts_openSwitch (reader : Fin N → ReaderPos N) (finished : Finset (Fin N)) :
    snapshotHosts (openSwitch reader finished) = List.finRange N := by
  simp [snapshotHosts,openSwitch]

theorem update_decide_mem (l : List (Fin N)) (g : Fin N) :
    Function.update (fun h => decide (h ∈ l)) g true = fun h => decide (h ∈ g::l) := by
  funext h
  by_cases hh : h = g
  · subst hh; simp
  · simp [hh]

theorem reached_accepting (l : List (Fin N)) (hl : l.Nodup) :
    Reached { Switch.initial with
      hosts := fun g => decide (g ∈ l), conn := fun g => decide (g ∈ l),
      opened := fun g => decide (g ∈ l) } := by
  induction l with
  | nil => exact ⟨[],.start (by simp [switchMachine,Switch.initial])⟩
  | cons g l ih =>
    obtain ⟨hg,hl⟩ := List.nodup_cons.mp hl
    have hstep := (ih hl).step (.accept g) _ _ (by simp only [switchStep,hg,decide_false]; rfl)
    simpa only [update_decide_mem] using hstep

theorem reached_registered : Reached (openSwitch (fun _ => .notStarted) ∅ : Switch N) := by
  have h := reached_accepting (List.finRange N) (List.nodup_finRange N)
  simpa [Switch.initial,openSwitch] using h

theorem reached_started (l : List (Fin N)) (hl : l.Nodup) :
    Reached (openSwitch (fun g => if g ∈ l then .reading else .notStarted) ∅) := by
  induction l with
  | nil => simpa using reached_registered
  | cons g l ih =>
    obtain ⟨hg,hl⟩ := List.nodup_cons.mp hl
    have hstart := (ih hl).step (.start g) (openSwitch (Function.update
      (fun h => if h ∈ l then .reading else .notStarted) g .top) ∅) []
      (by simp [switchStep,openSwitch,hg,Switch.setReader])
    have hread := hstart.step (.reader g (.go 0)) (openSwitch (Function.update
      (fun h => if h ∈ l then .reading else .notStarted) g .reading) ∅) [.entersRead g]
      (by simp [switchStep,readerStep,readerLocal,openSwitch,Switch.setReader])
    convert hread using 2
    funext h
    by_cases hh : h = g
    · subst hh; simp
    · simp [hh]

theorem reached_reading : Reached (openSwitch (fun _ => .reading) ∅ : Switch N) := by
  simpa using reached_started (List.finRange N) (List.nodup_finRange N)

def sampleFinish : Msg := ⟨MsgHeader.new .finish 0,Bytes.empty⟩

theorem reached_marked (l : List (Fin N)) (hl : l.Nodup) (hlen : l.length < N) :
    Reached (openSwitch (fun _ => .reading) l.toFinset) := by
  induction l with
  | nil => simpa using reached_reading
  | cons g l ih =>
    obtain ⟨hg,hl⟩ := List.nodup_cons.mp hl
    have hcard : (insert g l.toFinset).card < N := by
      simpa [hg,List.toFinset_card_of_nodup hl] using hlen
    have hgot := (ih hl (by simp at hlen; omega)).step (.reader g (.recv sampleFinish))
      (openSwitch (Function.update (fun _ => .reading) g (.got sampleFinish)) l.toFinset)
      [] rfl
    have hmark := hgot.step (.reader g (.go 0))
      (openSwitch (Function.update (fun _ => .reading) g .top) (insert g l.toFinset))
      [] (by
        have hk : sampleFinish.header.kind = some .finish := rfl
        simp [switchStep,readerStep,readerLocal,openSwitch,handleMessage,hk,Nat.not_le.mpr hcard,
          Switch.setReader])
    have hread := hmark.step (.reader g (.go 0))
      (openSwitch (fun _ => .reading) (insert g l.toFinset)) [.entersRead g]
      (by simp [switchStep,readerStep,readerLocal,openSwitch,Switch.setReader])
    simpa using hread

theorem reached_broadcast (h : Fin N) (finished : Finset (Fin N)) (l : List (Fin N))
    (hr : Reached (openSwitch (Function.update (fun _ => .reading) h (.broadcasting 0 l)) finished)) :
    Reached (openSwitch (Function.update (fun _ => .reading) h (.broadcasting 0 [])) finished) := by
  induction l with
  | nil => exact hr
  | cons g l ih =>
    apply ih
    let s := openSwitch (Function.update (fun _ => .reading) h (.broadcasting 0 (g::l))) finished
    have henter := hr.step (.reader h (.go 0))
      ({ s with writing := Function.update s.writing h (some 0) }) [.entersWrite g]
      (by simp [switchStep,readerStep,readerLocal,openSwitch,s,sendTarget,enterSend,writeMutexFree])
    have hsent := henter.step (.reader h (.sent true)) (openSwitch
      (Function.update (fun _ => .reading) h (.broadcasting 0 l)) finished)
      [.toHost g (broadcastFinishMsg 0 g 0)]
      (by simp [switchStep,readerStep,openSwitch,s,sendTarget,finishSend,afterSend,sendMsg,
        afterSendEvents,Switch.setReader])
    exact hsent

/-- Reader 0 in `close_all_host_connections`, all other readers in `sr_read`. -/
def stoppedSwitch {n : ℕ} (p : ReaderPos (n + 2)) (finished : Finset (Fin (n + 2)))
    (conn opened : Fin (n + 2) → Bool) : Switch (n + 2) :=
  { openSwitch (Function.update (fun _ => .reading) 0 p) finished with
    running := false, conn := conn, opened := opened }

/-- With two hosts or more, the last FINISH closes a connection whose reader is in `sr_read`. -/
theorem not_closesSafely (n : ℕ) : ¬ClosesSafely (n + 2) := by
  intro hsafe
  let l := (List.finRange (n + 1)).map Fin.succ
  have hl : l.Nodup := (List.nodup_finRange _).map (Fin.succ_injective _)
  have hfin : List.finRange (n + 2) = 0::l := List.finRange_succ
  have hmarked := reached_marked l hl (by simp [l])
  have hgot := hmarked.step (.reader 0 (.recv sampleFinish))
    (openSwitch (Function.update (fun _ => .reading) 0 (.got sampleFinish)) l.toFinset)
    [] rfl
  have hcard : (insert 0 l.toFinset).card = n + 2 := by
    rw [← List.toFinset_cons,← hfin,List.toFinset_card_of_nodup (List.nodup_finRange _)]
    simp
  have hlast := hgot.step (.reader 0 (.go 0))
    (openSwitch (Function.update (fun _ => .reading) 0 (.broadcasting 0 (List.finRange (n + 2))))
      (insert 0 l.toFinset)) [.broadcast] (by
      have hk : sampleFinish.header.kind = some .finish := rfl
      have hsnap := snapshotHosts_openSwitch (N := n + 2)
        (Function.update (fun _ => .reading) 0 (.got sampleFinish)) l.toFinset
      simp only [openSwitch] at hsnap
      simp [switchStep,readerStep,readerLocal,openSwitch,handleMessage,hk,hcard,hsnap,
        Switch.setReader]
      rfl)
  have hsent := reached_broadcast 0 _ _ hlast
  let rest : List (Fin (n + 2)) := (List.finRange n).map (Fin.succ ∘ Fin.succ)
  have hsnap : snapshotHosts (openSwitch (Function.update (fun _ => .reading) 0
      (.broadcasting 0 [])) (insert 0 l.toFinset)) = 0::1::rest := by
    rw [snapshotHosts_openSwitch,hfin]
    simp [l,rest,List.finRange_succ]
  -- reader 0 stops the loops, closes its own connection and reaches connection 1
  have hstop := hsent.step (.reader 0 (.go 0))
    (stoppedSwitch (.closing (0::1::rest)) (insert 0 l.toFinset) (fun _ => true) fun _ => true) []
    (by
      rw [← hsnap]
      simp [switchStep,readerStep,readerLocal,openSwitch,stoppedSwitch,Switch.setReader])
  have hclose := hstop.step (.reader 0 (.go 0))
    (stoppedSwitch (.nulling 0 (1::rest)) (insert 0 l.toFinset) (fun _ => true)
      (Function.update (fun _ => true) 0 false)) [.closed 0]
    (by simp [switchStep,readerStep,readerLocal,openSwitch,stoppedSwitch,Switch.setReader])
  have hnull := hclose.step (.reader 0 (.go 0))
    (stoppedSwitch (.closing (1::rest)) (insert 0 l.toFinset)
      (Function.update (fun _ => true) 0 false) (Function.update (fun _ => true) 0 false)) []
    (by simp [switchStep,readerStep,readerLocal,openSwitch,stoppedSwitch,Switch.setReader])
  obtain ⟨hist,hrun⟩ := hnull
  have hbad := (hsafe _ hist hrun).1 (.reader 0 (.go 0))
    (stoppedSwitch (.nulling 1 rest) (insert 0 l.toFinset) (Function.update (fun _ => true) 0 false)
      (Function.update (Function.update (fun _ => true) 0 false) 1 false)) [.closed 1] 1
    (by simp [switchStep,readerStep,readerLocal,openSwitch,stoppedSwitch,Switch.setReader])
    (by simp) 1 (by simp [SwitchAction.thread])
  exact hbad (Or.inl ⟨rfl,by simp [stoppedSwitch,openSwitch]⟩)

/-- A connection is never closed under a reader exactly when the switch serves one host. -/
theorem closesSafely_iff (n : ℕ) : ClosesSafely (n + 1) ↔ n + 1 = 1 := by
  cases n with
  | zero => exact iff_of_true closesSafely_one rfl
  | succ n => exact iff_of_false (not_closesSafely n) (by omega)

theorem not_closesSafely_two : ¬ClosesSafely 2 := not_closesSafely 0

end INA2A

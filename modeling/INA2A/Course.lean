import INA2A.Lifecycle

/-! What a course of the protocol shows: the conversation about a token follows its stage, the
work for it is sent and answered once at each expert, and the broadcast comes last. -/
namespace INA2A

open EventMachine

variable {H T : Type}

inductive Talk
  | dispatch | ack | pull | notReady | combined
  deriving DecidableEq

theorem JobStep.labels {o e : H} {i : ℕ} {τ τ' : Job T} {ls : List (Sign H)}
    (hs : JobStep o i e τ ls τ') : ∀ x ∈ ls, x = .enq e (.result o i) ∨ x = .up e (.result o i) := by
  cases hs <;> simp

theorem FinStep.labels {h : H} {f f' : Closing T} {ls : List (Sign H)} (hs : FinStep h f ls f') :
    ∀ x ∈ ls, x = .enq h .finish ∨ x = .up h .finish := by
  cases hs <;> simp

theorem FinStep.unmarked {h : H} {f f' : Closing T} {ls : List (Sign H)} (hs : FinStep h f ls f') :
    f ≠ .marked ∧ f' ≠ .marked := by
  cases hs <;> simp

/-- `n` pulls that were refused. -/
def refusals : ℕ → List Talk
  | 0 => []
  | n + 1 => refusals n ++ [.pull,.notReady]

/-- What has been said of a token at its stage, after `n` refusals. -/
def Stage.said (n : ℕ) : Stage H T → List Talk
  | raw | task | attended _ | dispatching _ => []
  | dispatched _ | fanning _ _ => [.dispatch]
  | acking _ | idle | chosen | asking _ => .dispatch::.ack::refusals n
  | asked _ | refusing _ | answering _ => .dispatch::.ack::(refusals n ++ [.pull])
  | refused _ => .dispatch::.ack::refusals (n + 1)
  | returning _ | done => .dispatch::.ack::(refusals n ++ [.pull,.combined])

/-- All that is said of a token that is refused `n` times. -/
def conversation (n : ℕ) : List Talk := .dispatch::.ack::(refusals n ++ [.pull,.combined])

theorem Stage.said_conversation (n : ℕ) (σ : Stage H T) : ∃ k, σ.said n <+: conversation k := by
  have hpull : ∀ k, Talk.dispatch::.ack::(refusals k ++ [.pull]) <+: conversation k := fun k =>
    ⟨[.combined],by simp [conversation]⟩
  have hrefused : ∀ k, Talk.dispatch::.ack::refusals k <+: conversation k := fun k =>
    ⟨[.pull,.combined],by simp [conversation]⟩
  cases σ
  case raw | task | attended | dispatching => exact ⟨n,List.nil_prefix⟩
  case dispatched | fanning => exact ⟨n,_,rfl⟩
  case acking | idle | chosen | asking => exact ⟨n,hrefused n⟩
  case asked | refusing | answering => exact ⟨n,hpull n⟩
  case refused => exact ⟨n + 1,hrefused (n + 1)⟩
  case returning | done => exact ⟨n,List.prefix_rfl⟩

/-- The dispatch handler has sent everything. -/
def Stage.fanned : Stage H T → Bool
  | raw | task | attended _ | dispatching _ | dispatched _ | fanning _ _ => false
  | _ => true

theorem Stage.fanned_iff (σ : Stage H T) :
    σ.fanned = true → σ.early = false ∧ σ.rest = [] := by
  cases σ <;> simp [Stage.fanned,Stage.early,Stage.rest]

theorem TokenStep.fanned {h g : H} {i j : ℕ} {σ σ' : Stage H T} {ls : List (Sign H)}
    (hs : TokenStep g j σ ls σ') :
    (σ.fanned = true → σ'.fanned = true) ∧
      (.returned h i ∈ ls → h = g ∧ i = j ∧ σ'.fanned = true) := by
  cases hs <;> simp [Stage.fanned]

theorem TokenStep.noFault {h : H} {i : ℕ} {σ σ' : Stage H T} {ls : List (Sign H)}
    (hs : TokenStep h i σ ls σ') : .fault ∉ ls ∧ .broadcast ∉ ls := by
  cases hs <;> simp

theorem TokenStep.noFinish {g h : H} {i : ℕ} {σ σ' : Stage H T} {ls : List (Sign H)}
    (hs : TokenStep h i σ ls σ') : .up g .finish ∉ ls := by
  cases hs <;> simp

theorem TokenStep.ups {g h : H} {i j : ℕ} {σ σ' : Stage H T} {ls : List (Sign H)}
    (hs : TokenStep g j σ ls σ') (hup : .up h (.dispatch i) ∈ ls ∨ .up h (.pull i) ∈ ls) :
    h = g ∧ σ ≠ .raw ∧ σ ≠ .done := by
  cases hs <;> simp at hup ⊢ <;> exact hup.1

variable [DecidableEq H] {S : Plan H} {p p' : Progress H T} {tr ls : List (Sign H)}
variable {h o e : H} {i : ℕ}

/-- What a sign says of token `i` of host `h`, between the host and the switch. -/
def Sign.talk (h : H) (i : ℕ) : Sign H → Option Talk
  | .up g (.dispatch j) => if g = h ∧ j = i then some .dispatch else none
  | .down g (.ack j) => if g = h ∧ j = i then some .ack else none
  | .up g (.pull j) => if g = h ∧ j = i then some .pull else none
  | .down g (.notReady j) => if g = h ∧ j = i then some .notReady else none
  | .down g (.combined j) => if g = h ∧ j = i then some .combined else none
  | _ => none

theorem TokenStep.said {σ σ' : Stage H T} (hs : TokenStep h i σ ls σ') (n : ℕ) :
    ∃ k, σ.said n ++ ls.filterMap (Sign.talk h i) = σ'.said k := by
  cases hs
  case fanEnd => exact ⟨0,by simp [Stage.said,Sign.talk,refusals]⟩
  case refused => exact ⟨n + 1,by simp [Stage.said]⟩
  all_goals exact ⟨n,by simp [Stage.said,Sign.talk,refusals]⟩

theorem TokenStep.silent {σ σ' : Stage H T} {g : H} {j : ℕ} (hs : TokenStep g j σ ls σ')
    (hne : ¬(h = g ∧ i = j)) : ls.filterMap (Sign.talk h i) = [] := by
  have hne' : ¬(g = h ∧ j = i) := by
    rintro ⟨rfl,rfl⟩
    exact hne ⟨rfl,rfl⟩
  cases hs <;> simp [Sign.talk,hne']

theorem JobStep.silent {τ τ' : Job T} {g f : H} {j : ℕ} (hs : JobStep g j f τ ls τ') :
    ls.filterMap (Sign.talk h i) = [] := by
  cases hs <;> simp [Sign.talk]

theorem FinStep.silent {f f' : Closing T} {g : H} (hs : FinStep g f ls f') :
    ls.filterMap (Sign.talk h i) = [] := by
  cases hs <;> simp [Sign.talk]

theorem setStage_said {g : H} {j n : ℕ} {σ : Stage H T} (hσ : (p.stage g j).said n = σ.said n)
    (h : H) (i : ℕ) : (p.stage h i).said n = ((p.setStage g j σ).stage h i).said n := by
  by_cases hgj : h = g ∧ i = j
  · obtain ⟨rfl,rfl⟩ := hgj
    simpa using hσ
  · simp [hgj]

/-- A move continues the conversation about every token as its stage does. -/
theorem Advance.said (ha : Advance S p ls p') (hp : Orderly S p) (h : H) (i n : ℕ) :
    ∃ k, (p.stage h i).said n ++ ls.filterMap (Sign.talk h i) = (p'.stage h i).said k := by
  cases ha with
  | admission g _ _ =>
    have hraw := (hp.raw g (p.next g)).mpr le_rfl
    have hsaid : (p.stage g (p.next g)).said n = (Stage.task : Stage H T).said n := by
      simp [hraw,Stage.said]
    exact ⟨n,by simpa using setStage_said hsaid h i⟩
  | token g j _ σ hs =>
    by_cases hgj : h = g ∧ i = j
    · obtain ⟨rfl,rfl⟩ := hgj
      simpa using hs.said n
    · exact ⟨n,by simp [hgj,hs.silent hgj]⟩
  | job g j f _ τ hs => exact ⟨n,by simp [hs.silent]⟩
  | create g j ts targets hst _ _ =>
    exact ⟨n,by simpa using setStage_said (by simp [hst,Stage.said]) h i⟩
  | fanOut g j ts f rest ts' hst =>
    refine ⟨n,?_⟩
    by_cases hgj : h = g ∧ i = j
    · obtain ⟨rfl,rfl⟩ := hgj
      simp [hst,Stage.said,Sign.talk]
    · simp [hgj,Sign.talk]
  | answer g j ts ts' hst _ =>
    exact ⟨n,by simpa using setStage_said (by simp [hst,Stage.said]) h i⟩
  | refuse g j ts ts' hst _ =>
    exact ⟨n,by simpa using setStage_said (by simp [hst,Stage.said]) h i⟩
  | slide g _ _ => exact ⟨n,by simp⟩
  | finish g ts _ _ => exact ⟨n,by simp⟩
  | close g _ f hs => exact ⟨n,by simp [hs.silent]⟩
  | mark g ts _ _ => exact ⟨n,by simp⟩
  | markLast g ts _ _ => exact ⟨n,by simp [Sign.talk]⟩
  | stop g _ => exact ⟨n,by simp [Sign.talk]⟩

theorem course_said (hc : Course S p tr) (h : H) (i : ℕ) :
    ∃ n, tr.filterMap (Sign.talk h i) = (p.stage h i).said n := by
  have hinv := hc.invariant (P := fun p tr => Orderly S p ∧
    ∀ h i, ∃ n, tr.filterMap (Sign.talk h i) = (p.stage h i).said n)
    ⟨Orderly.initial S,fun h i => ⟨0,rfl⟩⟩ ?_
  · exact hinv.2 h i
  · rintro t tr t' ls ⟨hp,hsaid⟩ ha
    refine ⟨hp.advance ha,?_⟩
    intro h i
    obtain ⟨n,hn⟩ := hsaid h i
    obtain ⟨k,hk⟩ := ha.said hp h i n
    exact ⟨k,by rw [List.filterMap_append,hn,hk]⟩

def Job.inputs : Job T → ℕ
  | absent | target => 0
  | _ => 1

def Job.results : Job T → ℕ
  | out _ | wire _ | accepted => 1
  | _ => 0

theorem Job.inputs_le (τ : Job T) : τ.inputs ≤ 1 := by cases τ <;> simp [Job.inputs]
theorem Job.results_le (τ : Job T) : τ.results ≤ τ.inputs := by
  cases τ <;> simp [Job.inputs,Job.results]

theorem TokenStep.noWork {σ σ' : Stage H T} {g : H} {j : ℕ} (hs : TokenStep g j σ ls σ') :
    ls.count (.down e (.input o i)) = 0 ∧ ls.count (.enq e (.result o i)) = 0 := by
  cases hs <;> simp

theorem FinStep.noWork {f f' : Closing T} {g : H} (hs : FinStep g f ls f') :
    ls.count (.down e (.input o i)) = 0 ∧ ls.count (.enq e (.result o i)) = 0 := by
  cases hs <;> simp

theorem JobStep.work {τ τ' : Job T} {g f : H} {j : ℕ} (hs : JobStep g j f τ ls τ') :
    ls.count (.down e (.input o i)) = 0 ∧ τ'.inputs = τ.inputs ∧
      τ'.results = τ.results + ls.count (.enq f (.result g j)) ∧
      (¬(o = g ∧ i = j ∧ e = f) → ls.count (.enq e (.result o i)) = 0) := by
  cases hs with
  | enqResult ts =>
    refine ⟨by simp,rfl,by simp [Job.results],?_⟩
    intro hne
    have hne' : ¬(f = e ∧ g = o ∧ j = i) := by
      rintro ⟨rfl,rfl,rfl⟩
      exact hne ⟨rfl,rfl,rfl⟩
    simp [hne']
  | _ => simp [Job.inputs,Job.results]

/-- A move sends an input, and queues a result, exactly when the job says so. -/
theorem Advance.work (ha : Advance S p ls p') (hp : Orderly S p) (o : H) (i : ℕ) (e : H) :
    (p'.job o i e).inputs = (p.job o i e).inputs + ls.count (.down e (.input o i)) ∧
      (p'.job o i e).results = (p.job o i e).results + ls.count (.enq e (.result o i)) := by
  cases ha with
  | token g j _ σ hs =>
    obtain ⟨hin,hout⟩ := hs.noWork (o := o) (i := i) (e := e)
    simp [hin,hout]
  | job g j f _ τ hs =>
    obtain ⟨hin,hinputs,hresults,hother⟩ := hs.work (o := o) (i := i) (e := e)
    by_cases hgj : o = g ∧ i = j ∧ e = f
    · obtain ⟨rfl,rfl,rfl⟩ := hgj
      simp [hin,hinputs,hresults]
    · simp [hgj,hin,hother hgj]
  | create g j ts targets hst _ _ =>
    have habs := hp.early g j e (by simp [hst,Stage.early])
    by_cases hgj : o = g ∧ i = j ∧ e ∈ targets
    · obtain ⟨rfl,rfl,hmem⟩ := hgj
      simp [hmem,habs,Job.inputs,Job.results]
    · simp [hgj]
  | fanOut g j ts f rest ts' hst =>
    have htarget : p.job g j f = .target := (hp.target g j f).mpr (by simp [hst,Stage.rest])
    by_cases hgj : o = g ∧ i = j ∧ e = f
    · obtain ⟨rfl,rfl,rfl⟩ := hgj
      simp [htarget,Job.inputs,Job.results]
    · have hne : ¬(f = e ∧ g = o ∧ j = i) := by
        rintro ⟨rfl,rfl,rfl⟩
        exact hgj ⟨rfl,rfl,rfl⟩
      simp [hgj,hne]
  | close g _ f hs =>
    obtain ⟨hin,hout⟩ := hs.noWork (o := o) (i := i) (e := e)
    simp [hin,hout]
  | _ => simp

theorem course_work (hc : Course S p tr) (o : H) (i : ℕ) (e : H) :
    tr.count (.down e (.input o i)) = (p.job o i e).inputs ∧
      tr.count (.enq e (.result o i)) = (p.job o i e).results := by
  have hinv := hc.invariant (P := fun p tr => Orderly S p ∧
    ∀ o i e, tr.count (.down e (.input o i)) = (p.job o i e).inputs ∧
      tr.count (.enq e (.result o i)) = (p.job o i e).results)
    ⟨Orderly.initial S,fun o i e => ⟨rfl,rfl⟩⟩ ?_
  · exact hinv.2 o i e
  · rintro t tr t' ls ⟨hp,hwork⟩ ha
    refine ⟨hp.advance ha,?_⟩
    intro o i e
    obtain ⟨hin,hout⟩ := ha.work hp o i e
    rw [List.count_append,List.count_append,(hwork o i e).1,(hwork o i e).2,hin,hout]
    exact ⟨rfl,rfl⟩

theorem Progress.setStage_fanned {g : H} {j : ℕ} {σ : Stage H T}
    (hσ : (p.stage g j).fanned = true → σ.fanned = true) (hf : (p.stage h i).fanned = true) :
    ((p.setStage g j σ).stage h i).fanned = true := by
  rw [Progress.setStage_stage]
  split_ifs with hgj
  · obtain ⟨rfl,rfl⟩ := hgj
    exact hσ hf
  · exact hf

theorem Advance.fanned (ha : Advance S p ls p') (hp : Orderly S p) (h : H) (i : ℕ)
    (hret : (p.stage h i).fanned = true ∨ .returned h i ∈ ls) :
    (p'.stage h i).fanned = true := by
  cases ha with
  | admission g _ _ =>
    have hfanned : (p.stage h i).fanned = true := by simpa using hret
    have hne : ¬(h = g ∧ i = p.next g) := by
      rintro ⟨rfl,rfl⟩
      simp [(hp.raw h _).mpr le_rfl,Stage.fanned] at hfanned
    simpa [hne] using hfanned
  | token g j _ σ hs =>
    have hstep := hs.fanned (h := h) (i := i)
    by_cases hgj : h = g ∧ i = j
    · obtain ⟨rfl,rfl⟩ := hgj
      rcases hret with hfanned | hmem
      · simpa using hstep.1 hfanned
      · simpa using (hstep.2 hmem).2.2
    · have hfanned := hret.resolve_right fun hmem => hgj ⟨(hstep.2 hmem).1,(hstep.2 hmem).2.1⟩
      simpa [hgj] using hfanned
  | job g j f _ τ hs => simpa using hret.resolve_right fun hmem => by simpa using hs.labels _ hmem
  | create g j ts targets hst _ _ =>
    exact Progress.setStage_fanned (by simp [hst,Stage.fanned]) (by simpa using hret)
  | fanOut g j ts f rest ts' hst =>
    exact Progress.setStage_fanned (by simp [hst,Stage.fanned]) (by simpa using hret)
  | answer g j ts ts' hst _ => exact Progress.setStage_fanned (fun _ => rfl) (by simpa using hret)
  | refuse g j ts ts' hst _ => exact Progress.setStage_fanned (fun _ => rfl) (by simpa using hret)
  | close g _ f hs => simpa using hret.resolve_right fun hmem => by simpa using hs.labels _ hmem
  | _ => simpa using hret

theorem course_fanned (hc : Course S p tr) (hret : .returned h i ∈ tr) :
    (p.stage h i).fanned = true := by
  have hinv := hc.invariant (P := fun p tr => Orderly S p ∧
    ∀ h i, .returned h i ∈ tr → (p.stage h i).fanned = true)
    ⟨Orderly.initial S,by simp⟩ ?_
  · exact hinv.2 h i hret
  · rintro t tr t' ls ⟨hp,hfanned⟩ ha
    refine ⟨hp.advance ha,?_⟩
    intro h i hmem
    refine ha.fanned hp h i ?_
    rcases List.mem_append.mp hmem with hmem | hmem
    · exact Or.inl (hfanned h i hmem)
    · exact Or.inr hmem

/-- Once the dispatch handler of a token has returned, each expert it selects has been sent
exactly one input. -/
theorem course_returned (hc : Course S p tr) (hret : .returned o i ∈ tr) (he : e ∈ S.sel o i) :
    tr.count (.down e (.input o i)) = 1 := by
  have hp := orderly_of_course hc
  obtain ⟨hearly,hrest⟩ := (p.stage o i).fanned_iff (course_fanned hc hret)
  have habs := (hp.selected o i e hearly).mpr he
  have htarget : p.job o i e ≠ .target := by
    rw [Ne,hp.target o i e,hrest]
    simp
  rw [(course_work hc o i e).1]
  cases hj : p.job o i e <;> simp_all [Job.inputs]

/-- Nothing is rejected or dropped. -/
theorem course_fault (hc : Course S p tr) : .fault ∉ tr := by
  refine hc.invariant (P := fun _ tr => .fault ∉ tr) (by simp) ?_
  intro t tr t' ls hno ha
  have hls : .fault ∉ ls := by
    cases ha with
    | token g j _ σ hs => exact hs.noFault.1
    | job g j f _ τ hs => exact fun hmem => by simpa using hs.labels _ hmem
    | close g _ f hs => exact fun hmem => by simpa using hs.labels _ hmem
    | _ => simp
  simpa [hls] using hno

theorem Advance.closed (ha : Advance S p ls p') (hp : Orderly S p) (hf : p.fin h ≠ .unfinished)
    (i : ℕ) : ¬(.up h (.dispatch i) ∈ ls ∨ .up h (.pull i) ∈ ls) := by
  intro hup
  cases ha with
  | token g j _ σ hs =>
    obtain ⟨rfl,hraw,hdone⟩ := hs.ups hup
    rcases hp.closed hf j with ⟨hst,-⟩ | ⟨hst,-⟩
    · exact hdone hst
    · exact hraw hst
  | job g j f _ τ hs => rcases hup with hmem | hmem <;> simpa using hs.labels _ hmem
  | close g _ f hs => rcases hup with hmem | hmem <;> simpa using hs.labels _ hmem
  | _ => simp at hup

theorem Advance.closed_ne (ha : Advance S p ls p') (hp : Orderly S p) (hf : p.fin h ≠ .unfinished)
    {x : Sign H} (hx : x ∈ ls) (i : ℕ) : x ≠ .up h (.dispatch i) ∧ x ≠ .up h (.pull i) := by
  have hno := ha.closed hp hf i
  constructor
  · rintro rfl
    exact hno (Or.inl hx)
  · rintro rfl
    exact hno (Or.inr hx)

theorem Advance.decided (ha : Advance S p ls p') (hmem : .up h .finish ∈ ls) :
    p.fin h ≠ .unfinished := by
  cases ha with
  | token g j _ σ hs => exact absurd hmem hs.noFinish
  | job g j f _ τ hs => simpa using hs.labels _ hmem
  | close g _ f hs =>
    obtain rfl : h = g := by simpa using hs.labels _ hmem
    exact hs.frame.1
  | _ => simp at hmem

theorem Advance.stayDecided (ha : Advance S p ls p') (hf : p.fin h ≠ .unfinished) :
    p'.fin h ≠ .unfinished := by
  cases ha with
  | finish g ts _ _ => by_cases hg : h = g <;> simp_all
  | close g _ f hs =>
    rw [Progress.setFin_fin]
    split_ifs with hg
    · exact hs.frame.2
    · exact hf
  | mark g ts _ _ => by_cases hg : h = g <;> simp_all
  | markLast g ts _ _ => by_cases hg : h = g <;> simp_all
  | _ => simpa using hf

/-- No dispatch and no pull of a host follows its FINISH. -/
theorem course_finish (hc : Course S p tr) : tr.Pairwise fun a b => ∀ h i, a = .up h .finish →
    b ≠ .up h (.dispatch i) ∧ b ≠ .up h (.pull i) := by
  have hinv := hc.invariant (P := fun p tr => Orderly S p ∧
    (∀ h, .up h .finish ∈ tr → p.fin h ≠ .unfinished) ∧
    tr.Pairwise fun a b => ∀ h i, a = .up h .finish →
      b ≠ .up h (.dispatch i) ∧ b ≠ .up h (.pull i)) ⟨Orderly.initial S,by simp,by simp⟩ ?_
  · exact hinv.2.2
  · rintro t tr t' ls ⟨hp,hfin,hpair⟩ ha
    refine ⟨hp.advance ha,?_,List.pairwise_append.mpr ⟨hpair,?_,?_⟩⟩
    · intro h hmem
      rcases List.mem_append.mp hmem with hmem | hmem
      · exact ha.stayDecided (hfin h hmem)
      · exact ha.stayDecided (ha.decided hmem)
    · refine List.pairwise_of_forall_mem_list ?_
      rintro a hmem b hb h i rfl
      exact ha.closed_ne hp (ha.decided hmem) hb i
    · rintro a hmem b hb h i rfl
      exact ha.closed_ne hp (hfin h hmem) hb i

theorem Advance.broadcast (ha : Advance S p ls p') :
    p.allMarked ∧ p'.allMarked ∧ ls.count .broadcast = 0 ∨
      ¬p.allMarked ∧ p'.allMarked ∧ ls.count .broadcast = 1 ∨
      ¬p.allMarked ∧ ¬p'.allMarked ∧ ls.count .broadcast = 0 := by
  have hsame : p'.fin = p.fin → ls.count .broadcast = 0 →
      p.allMarked ∧ p'.allMarked ∧ ls.count .broadcast = 0 ∨
      ¬p.allMarked ∧ p'.allMarked ∧ ls.count .broadcast = 1 ∨
      ¬p.allMarked ∧ ¬p'.allMarked ∧ ls.count .broadcast = 0 := by
    intro hfin hcount
    by_cases hall : p.allMarked
    · exact Or.inl ⟨hall,by rwa [Progress.allMarked,hfin],hcount⟩
    · exact Or.inr (Or.inr ⟨hall,by rwa [Progress.allMarked,hfin],hcount⟩)
  have hunmarked : ∀ h, p.fin h ≠ .marked → p'.fin h ≠ .marked → ls.count .broadcast = 0 →
      p.allMarked ∧ p'.allMarked ∧ ls.count .broadcast = 0 ∨
      ¬p.allMarked ∧ p'.allMarked ∧ ls.count .broadcast = 1 ∨
      ¬p.allMarked ∧ ¬p'.allMarked ∧ ls.count .broadcast = 0 := fun h h₁ h₂ hcount =>
    Or.inr (Or.inr ⟨fun hall => h₁ (hall h),fun hall => h₂ (hall h),hcount⟩)
  cases ha with
  | token g j _ σ hs => exact hsame rfl (List.count_eq_zero.mpr hs.noFault.2)
  | job g j f _ τ hs =>
    exact hsame rfl (List.count_eq_zero.mpr fun hmem => by simpa using hs.labels _ hmem)
  | close g _ f hs =>
    obtain ⟨hf,hf'⟩ := hs.unmarked
    exact hunmarked g hf (by simpa using hf')
      (List.count_eq_zero.mpr fun hmem => by simpa using hs.labels _ hmem)
  | finish g ts hf _ => exact hunmarked g (by simp [hf]) (by simp) rfl
  | mark g ts hf hex =>
    obtain ⟨f,hfg,hother⟩ := hex
    exact hunmarked f hother (by simpa [hfg] using hother) rfl
  | markLast g ts hf hothers =>
    refine Or.inr (Or.inl ⟨fun hall => by simp [hall g] at hf,?_,by simp⟩)
    intro f
    by_cases hfg : f = g
    · simp [hfg]
    · simp [hfg,hothers f hfg]
  | _ => exact hsame rfl (by simp)

/-- The broadcast is made at most once, and has been made exactly when all hosts are marked. -/
theorem course_broadcast [Nonempty H] (hc : Course S p tr) :
    tr.count .broadcast ≤ 1 ∧ (.broadcast ∈ tr ↔ p.allMarked) := by
  have hinv := hc.invariant (P := fun p tr => p.allMarked ∧ tr.count .broadcast = 1 ∨
    ¬p.allMarked ∧ tr.count .broadcast = 0) ?_ ?_
  · rw [← List.count_pos_iff]
    rcases hinv with ⟨hall,hcount⟩ | ⟨hall,hcount⟩ <;> simp [hall,hcount]
  · refine Or.inr ⟨?_,rfl⟩
    intro hall
    obtain ⟨h⟩ := ‹Nonempty H›
    simpa [Progress.initial] using hall h
  · intro t tr t' ls hcount ha
    rw [List.count_append]
    rcases ha.broadcast with ⟨hall,hall',hls⟩ | ⟨hall,hall',hls⟩ | ⟨hall,hall',hls⟩ <;>
      simp_all

end INA2A

import ZbkcTasks.ManagerPools

/-! The cache `self.pools` against the pools that the cluster has. A command applies its change and
succeeds, or changes nothing and fails; the cache follows it as long as none fails behind its back. -/

namespace ZbkcTasks

open Finmap Prog

def MgrOp.succeeds : (o : MgrOp) → o.Ans → Bool
  | .poolCreate _ _ _, .ok _ => true
  | .poolSet _ _ _, .ok _ => true
  | .poolSetResult _ _ _, .ok r => decide (r = 0)
  | .rmpool _, .ok _ => true
  | _, _ => false

def MgrOp.change : MgrOp → PoolMap → PoolMap
  | .poolCreate pool pgNum _, c => c.insert pool pgNum
  | .poolSet pool prop (.int n), c => if prop = "pg_num" then c.insert pool n else c
  | .poolSetResult pool prop n, c => if prop = "pg_num" then c.insert pool n else c
  | .rmpool pool, c => c.erase pool
  | _, c => c

/-- Nothing but the commands changes the pools, and nobody else writes the manager's attributes. -/
def clusterEnv : Env mgrSig Manager PoolMap := fun o m c a m' c' =>
  m' = m ∧ c' = if o.succeeds a then o.change c else c

def Agrees (w : World mgrSig Manager PoolMap) : Prop := w.st.pools = w.ext

/-- The failures that the methods do not undo: `remove_pool` has forgotten the pool, `create_pool` does not
enter it, `expand_pool` enters a `pg_num` that was refused. -/
def MgrOp.strays : (o : MgrOp) → o.Ans → PoolMap → Prop
  | .rmpool _, .error _, _ => True
  | .poolSet _ _ _, .error _, _ => True
  | .poolSetResult pool prop n, .ok r, c =>
      prop = "pg_num" ∧ r ≠ 0 ∧ r ≠ 11 ∧ c.lookup pool ≠ some n
  | _, _, _ => False

def Faithful (w : World mgrSig Manager PoolMap) : Prop :=
  ∀ e ∈ w.log, ¬ MgrOp.strays e.op e.ans e.ext

variable {c : PoolMap} {m : Manager} {pool : String} {pgNum : Int}

theorem faithful_push {w : MgrW PoolMap} {o : MgrOp} {a : o.Ans} :
    Faithful (w.push o a m c) ↔ ¬ o.strays a w.ext ∧ Faithful w :=
  List.forall_mem_cons

def Judged (w : World mgrSig Manager PoolMap) : Prop := Agrees w ↔ Faithful w

theorem insert_eq_self_iff {n : Int} : c.insert pool n = c ↔ c.lookup pool = some n := by
  constructor
  · intro h
    rw [← h, lookup_insert]
  · intro h
    apply ext_lookup
    intro other
    by_cases hother : other = pool
    · rw [hother, lookup_insert, h]
    · rw [lookup_insert_of_ne _ hother]

section Calls

variable {A : MgrOp → Manager → PoolMap → Prop} (hA : ∀ o m c, A o m c) {w : MgrW PoolMap}

structure Settled (w : World mgrSig Manager PoolMap) : Prop where
  agrees : Agrees w
  faithful : Faithful w

theorem Settled.judged (h : Settled w) : Judged w := iff_of_true h.agrees h.faithful

theorem Settled.push {o : MgrOp} {a : o.Ans} (h : Settled w) (hm : m = w.st) (hc : c = w.ext)
    (hstray : ¬ o.strays a w.ext) : Settled (w.push o a m c) := by
  subst hm hc
  exact ⟨h.agrees, faithful_push.mpr ⟨hstray, h.faithful⟩⟩

theorem wp_pyAssert {P : Prop} [Decidable P] (h : Settled w) :
    wp clusterEnv A (pyAssert P "") (gives (fun _ w' => P ∧ w' = w) Judged) w := by
  unfold pyAssert
  split
  · exact ⟨‹P›, rfl⟩
  · exact h.judged

/-- The value is set, or the cluster has refused it, which is a stray when it was not there before. -/
def SetTo (pool prop : String) (val : Int) (m : Manager) (c : PoolMap)
    (w : World mgrSig Manager PoolMap) : Prop :=
  w.st = m ∧ ((w.ext = (MgrOp.poolSetResult pool prop val).change c ∧ Faithful w) ∨
    (w.ext = c ∧ (Faithful w ↔ (prop = "pg_num" → c.lookup pool = some val))))

theorem SetTo.judged {n : Int} (h : SetTo pool "pg_num" n m m.pools w) :
    Judged { w with st := { w.st with pools := w.st.pools.insert pool n } } := by
  obtain ⟨rfl, ⟨hext, hfaithful⟩ | ⟨hext, hfaithful⟩⟩ := h
  · exact iff_of_true hext.symm hfaithful
  · refine Iff.trans ?_ (hfaithful.trans (forall_prop_of_true rfl)).symm
    rw [← insert_eq_self_iff]
    exact Eq.congr_right hext

structure Created (pool : String) (pgNum : Int) (w : World mgrSig Manager PoolMap) : Prop where
  fresh : pool ∉ w.st.pools
  ext : w.ext = w.st.pools.insert pool pgNum
  faithful : Faithful w

theorem Created.not_agrees (h : Created pool pgNum w) : ¬ Agrees w := by
  intro heq
  apply h.fresh
  rw [heq, h.ext, mem_insert]
  exact .inl rfl

theorem judged_poolPgNum (h : Settled w) : wp clusterEnv A (poolPgNum pool)
      (gives (fun n w' => w.st.pools.lookup pool = some n ∧ w' = w) Judged) w :=
  wp_poolPgNum (fun _ hn => ⟨hn, rfl⟩) h.judged

include hA

theorem wp_getNumCreating (h : Settled w) : wp clusterEnv A getNumCreating
      (gives (fun _ w' => Settled w' ∧ w'.st = w.st) Judged) w := by
  refine ⟨hA _ _ _, ?_⟩
  rintro (e | pgs) m c ⟨rfl, rfl⟩
  · exact (h.push rfl rfl id).judged
  · exact ⟨h.push rfl rfl id, rfl⟩

theorem wp_poolSetResult (pool prop : String) (val : Int) (h : Settled w) :
    wp clusterEnv A (ask (.poolSetResult pool prop val) >>= ofCommand)
      (gives (fun r w' => if r = 11 then Settled w' ∧ w'.st = w.st ∧ w'.ext = w.ext
        else SetTo pool prop val w.st w.ext w') Judged) w := by
  refine ⟨hA _ _ _, ?_⟩
  rintro (e | r) m c ⟨rfl, hc⟩
  · exact (h.push rfl hc id).judged
  · change if r = 11 then _ else _
    change c = if decide (r = 0) = true then _ else _ at hc
    simp only [decide_eq_true_eq] at hc
    by_cases hagain : r = 11
    · rw [if_neg (by omega)] at hc
      rw [if_pos hagain]
      exact ⟨h.push rfl hc fun hs => hs.2.2.1 hagain, rfl, hc⟩
    · rw [if_neg hagain]
      refine ⟨rfl, ?_⟩
      by_cases hok : r = 0
      · rw [if_pos hok] at hc
        exact .inl ⟨hc, faithful_push.mpr ⟨fun hs => hs.2.1 hok, h.faithful⟩⟩
      · rw [if_neg hok] at hc
        refine .inr ⟨hc, ?_⟩
        rw [faithful_push, and_iff_left h.faithful]
        change ¬ (prop = "pg_num" ∧ r ≠ 0 ∧ r ≠ 11 ∧ w.ext.lookup pool ≠ some val) ↔ _
        simp only [hok, hagain, ne_eq, not_false_eq_true, true_and, not_and, not_not]

theorem wp_setPoolPropertyLoop (pool prop : String) (val : Int) (retries : Nat) :
    ∀ w, Settled w → w.st = m → w.ext = c → wp clusterEnv A (setPoolPropertyLoop pool prop val retries)
        (gives (fun _ => SetTo pool prop val m c) Judged) w := by
  induction retries with
  | zero =>
    rintro w h rfl rfl
    unfold setPoolPropertyLoop
    apply wp_seq (wp_poolSetResult hA pool prop val h)
    intro r w' hr
    by_cases hagain : r = 11
    · rw [if_pos hagain] at hr
      rw [if_neg (not_not.mpr hagain)]
      exact hr.1.judged
    · rw [if_neg hagain] at hr
      rw [if_pos hagain]
      exact hr
  | succ retries ih =>
    rintro w h rfl rfl
    unfold setPoolPropertyLoop
    apply wp_seq (wp_poolSetResult hA pool prop val h)
    intro r w' hr
    by_cases hagain : r = 11
    · rw [if_pos hagain] at hr
      rw [if_neg (not_not.mpr hagain)]
      refine ⟨hA _ _ _, ?_⟩
      rintro ⟨⟩ m c ⟨rfl, rfl⟩
      exact ih _ (hr.1.push rfl rfl id) hr.2.1 hr.2.2
    · rw [if_neg hagain] at hr
      rw [if_pos hagain]
      exact hr

theorem wp_unlessCreating {rest : Mgr Unit} (h : Settled w)
    (hrest : ∀ w', Settled w' → w'.st = w.st →
      wp clusterEnv A rest (gives (fun _ => Judged) Judged) w') :
    wp clusterEnv A (do
      Prog.read fun m => pyAssert (pool ∈ m.pools) ""
      let creating ← getNumCreating
      if 0 < creating then .ret () else rest) (gives (fun _ => Judged) Judged) w := by
  apply wp_seq (P := fun _ w' => pool ∈ w.st.pools ∧ w' = w) (wp_pyAssert h)
  rintro _ w' ⟨-, rfl⟩
  apply wp_seq (wp_getNumCreating hA h)
  rintro creating w'' ⟨h'', hst⟩
  split
  · exact h''.judged
  · exact hrest w'' h'' hst

theorem judged_expandPool (pool : String) (growBy : Int) (maxPgs : MaxPgs) (h : Settled w) :
    wp clusterEnv A (expandPool pool growBy maxPgs) (gives (fun _ => Judged) Judged) w := by
  apply wp_unlessCreating hA h
  intro w1 h1 _
  apply wp_seq (judged_poolPgNum h1)
  rintro n w2 ⟨-, hw2⟩
  subst hw2
  split
  · exact h1.judged
  · apply wp_seq (judged_poolPgNum h1)
    rintro n w3 ⟨-, hw3⟩
    subst hw3
    apply wp_seq
      (wp_setPoolPropertyLoop hA pool "pg_num" (n + growBy) 50 _ h1 rfl h1.agrees.symm)
    intro _ w4 h4
    exact h4.judged

theorem judged_setPoolPgpnum (pool : String) (h : Settled w) :
    wp clusterEnv A (setPoolPgpnum pool) (gives (fun _ => Judged) Judged) w := by
  apply wp_unlessCreating hA h
  intro w1 h1 _
  apply wp_seq (judged_poolPgNum h1)
  rintro n w2 ⟨-, hw2⟩
  subst hw2
  refine wp_mono ?_ (wp_setPoolPropertyLoop hA pool "pgp_num" n 50 _ h1 rfl h1.agrees.symm)
  have hprop : "pgp_num" ≠ "pg_num" := by decide
  rintro (_ | e | _) w'' h''
  · obtain ⟨hst, ⟨hext, hfaithful⟩ | ⟨hext, hfaithful⟩⟩ := h''
    · refine iff_of_true ?_ hfaithful
      rw [Agrees, hst, hext, MgrOp.change, if_neg hprop]
    · refine iff_of_true ?_ (hfaithful.mpr fun heq => absurd heq hprop)
      rw [Agrees, hst, hext]
  · exact h''
  · exact h''

theorem judged_removePool (pool : String) (h : Settled w) :
    wp clusterEnv A (removePool pool) (gives (fun _ => Judged) Judged) w := by
  apply wp_seq (P := fun _ w' => pool ∈ w.st.pools ∧ w' = w) (wp_pyAssert h)
  rintro _ w1 ⟨hpool, hw1⟩
  subst hw1
  refine ⟨hA _ _ _, ?_⟩
  rintro (e | _) m c ⟨rfl, rfl⟩
  · apply iff_of_false
    · intro heq
      have herase : w1.st.pools.erase pool = w1.st.pools := heq.trans h.agrees.symm
      rw [← herase] at hpool
      exact notMem_erase_self hpool
    · intro hfaithful
      exact (faithful_push.mp hfaithful).1 trivial
  · apply iff_of_true
    · exact congrArg (erase pool) h.agrees
    · exact faithful_push.mpr ⟨id, h.faithful⟩

theorem wp_poolSet {prop : String} {val : SetVal} (hprop : prop ≠ "pg_num") (h : Created pool pgNum w) :
    wp clusterEnv A (ask (.poolSet pool prop val) >>= ofCommand)
      (gives (fun _ => Created pool pgNum) Judged) w := by
  refine ⟨hA _ _ _, ?_⟩
  have hchange : (MgrOp.poolSet pool prop val).change w.ext = w.ext := by
    cases val with
    | int n => exact if_neg hprop
    | text s => rfl
  rintro (e | _) m c ⟨rfl, rfl⟩
  · exact iff_of_false h.not_agrees fun hf => (faithful_push.mp hf).1 trivial
  · exact ⟨h.fresh, hchange.trans h.ext, faithful_push.mpr ⟨id, h.faithful⟩⟩

theorem judged_createPool (pool : String) (pgNum : Int) (profile : Option String)
    (minSize : Option Int) (overwrites : Bool) (h : Settled w) :
    wp clusterEnv A (createPool pool pgNum profile minSize overwrites)
      (gives (fun _ => Judged) Judged) w := by
  apply wp_seq (P := fun _ w' => pool ∉ w.st.pools ∧ w' = w) (wp_pyAssert h)
  rintro _ _ ⟨hpool, rfl⟩
  apply wp_seq (P := fun _ => Created pool pgNum)
  · refine ⟨hA _ _ _, ?_⟩
    rintro (e | _) m c ⟨rfl, rfl⟩
    · exact (h.push rfl rfl id).judged
    · refine ⟨hpool, ?_, faithful_push.mpr ⟨id, h.faithful⟩⟩
      rw [World.push_st, h.agrees]
      rfl
  intro _ w1 h1
  apply wp_seq (P := fun _ => Created pool pgNum)
  · cases minSize with
    | none => exact h1
    | some n => exact wp_poolSet hA (by decide) h1
  intro _ w2 h2
  apply wp_seq (P := fun _ => Created pool pgNum)
  · cases overwrites with
    | false => exact h2
    | true => exact wp_poolSet hA (by decide) h2
  intro _ w3 h3
  refine ⟨hA _ _ _, ?_⟩
  rintro ⟨⟩ m c ⟨rfl, rfl⟩
  exact iff_of_true h3.ext.symm (faithful_push.mpr ⟨id, h3.faithful⟩)

theorem judged_run (c : PoolCall) (h : Settled w) :
    wp clusterEnv A c.run (gives (fun _ => Judged) Judged) w := by
  cases c with
  | createPool pool pgNum profile minSize overwrites =>
    exact wp_seq (judged_createPool hA pool pgNum profile minSize overwrites h)
      fun _ _ h' => h'
  | createPoolWithUniqueName pgNum profile minSize overwrites =>
    refine wp_seq (P := fun _ => Judged) ?_ fun _ _ h' => h'
    -- taking the next id changes neither of the two maps
    let w1 := { w with st := { w.st with nextPoolId := w.st.nextPoolId + 1 } }
    have h1 : Settled w1 := ⟨h.agrees, h.faithful⟩
    change wp clusterEnv A
      (ZbkcTasks.createPool (uniquePoolName w.st.nextPoolId) pgNum profile minSize overwrites >>=
        fun _ => .ret (uniquePoolName w.st.nextPoolId)) _ w1
    exact wp_seq (judged_createPool hA _ pgNum profile minSize overwrites h1)
      fun _ _ h' => h'
  | removePool pool => exact wp_seq (judged_removePool hA pool h) fun _ _ h' => h'
  | expandPool pool growBy maxPgs =>
    exact wp_seq (judged_expandPool hA pool growBy maxPgs h) fun _ _ h' => h'
  | setPoolPgpnum pool => exact wp_seq (judged_setPoolPgpnum hA pool h) fun _ _ h' => h'

end Calls

theorem judged_of_exec {c : PoolCall} {w w' : MgrW PoolMap}
    {r : Outcome PyError (Option String)} (h : Settled w) (hrun : Exec clusterEnv c.run w r w') :
    Judged w' := by
  have hwp := wp_post (judged_run (fun _ _ _ => trivial) c h) hrun
  cases r with
  | ret | exn | cut => exact hwp

/-- **The cache follows the cluster.** In every sequence of calls that starts in agreement, the cache
equals the cluster's pools after every call exactly if no command strays. -/
theorem pools_agree_iff_faithful {calls : List PoolCall} {w : World mgrSig Manager PoolMap}
    {ws : List (World mgrSig Manager PoolMap)} (hagrees : w.st.pools = w.ext) (hlog : w.log = [])
    (hrun : Session clusterEnv w (calls.map PoolCall.run) ws) : (∀ w' ∈ ws, w'.st.pools = w'.ext) ↔
      ∀ w' ∈ ws, ∀ e ∈ w'.log, ¬ MgrOp.strays e.op e.ans e.ext := by
  have h : Settled w := ⟨hagrees, by simp [Faithful, hlog]⟩
  clear hagrees hlog
  induction calls generalizing w ws with
  | nil =>
    cases hrun
    simp
  | cons c calls ih =>
    cases hrun with
    | cons hc _ hrest =>
      have hjudged := judged_of_exec h hc
      rw [List.forall_mem_cons, List.forall_mem_cons]
      constructor
      · rintro ⟨hagrees, hlater⟩
        have hfaithful := hjudged.mp hagrees
        exact ⟨hfaithful, (ih hrest ⟨hagrees, hfaithful⟩).mp hlater⟩
      · rintro ⟨hfaithful, hlater⟩
        have hagrees := hjudged.mpr hfaithful
        exact ⟨hagrees, (ih hrest ⟨hagrees, hfaithful⟩).mpr hlater⟩

theorem exec_pyAssert {η : Type} {E : Env mgrSig Manager η} {P : Manager → Prop}
    [DecidablePred P] {w : MgrW η} (h : P w.st) :
    Exec E (Prog.read fun m => pyAssert (P m) "") w (.ret ()) w := by
  apply Exec.read
  unfold pyAssert
  rw [if_pos h]
  exact .ret () w

def removed (pool : String) (m : Manager) (c : PoolMap) (a : Except CommandError Unit) :
    World mgrSig Manager PoolMap :=
  World.push ⟨{ m with pools := m.pools.erase pool }, c, []⟩ (.rmpool pool) a
    { m with pools := m.pools.erase pool } (if (MgrOp.rmpool pool).succeeds a then c.erase pool else c)

theorem session_removePool (c : PoolMap) (hpool : pool ∈ m.pools) (a : Except CommandError Unit) :
    Session clusterEnv ⟨m, c, []⟩ ([.removePool pool].map PoolCall.run) [removed pool m c a] := by
  have hassert : Exec clusterEnv (Prog.read fun m => pyAssert (pool ∈ m.pools) "")
      ⟨m, c, []⟩ (.ret ()) ⟨m, c, []⟩ := exec_pyAssert hpool
  cases a with
  | error e =>
    have hrest : Exec clusterEnv (do updatePools (·.erase pool); ask (.rmpool pool) >>= ofCommand)
        ⟨m, c, []⟩ (.exn (.command e)) (removed pool m c (.error e)) :=
      .read (.write (.op (a := (Except.error e : Except CommandError Unit)) ⟨rfl, rfl⟩ (.throw _ _)))
    exact .cons (exec_bind_exn (exec_bind hassert hrest)) nofun (.nil _)
  | ok =>
    have hrest : Exec clusterEnv (do updatePools (·.erase pool); ask (.rmpool pool) >>= ofCommand)
        ⟨m, c, []⟩ (.ret ()) (removed pool m c (.ok ())) :=
      .read (.write (.op (a := (Except.ok () : Except CommandError Unit)) ⟨rfl, rfl⟩ (.ret _ _)))
    exact .cons (exec_bind (exec_bind hassert hrest) (.ret _ _)) nofun (.nil _)

def rbdOnly : PoolMap := singleton "rbd" 8

theorem pools_agree_iff_faithful_removed :
    let ws := [removed "rbd" ⟨rbdOnly, 0⟩ rbdOnly (.ok ())]
    (∀ w ∈ ws, w.st.pools = w.ext) ↔ ∀ w ∈ ws, ∀ e ∈ w.log, ¬ MgrOp.strays e.op e.ans e.ext :=
  pools_agree_iff_faithful rfl rfl (session_removePool rbdOnly (by decide) (.ok ()))

/-- `remove_pool` forgets the pool first: when the command fails it is still there. -/
theorem removePool_fails_disagrees :
    ∃ ws, Session clusterEnv ⟨⟨rbdOnly, 0⟩, rbdOnly, []⟩ ([.removePool "rbd"].map PoolCall.run) ws ∧
      ∃ w ∈ ws, w.st.pools ≠ w.ext := by
  refine ⟨_, session_removePool rbdOnly (by decide) (.error (.failed 1)), _, .head _, ?_⟩
  decide

end ZbkcTasks

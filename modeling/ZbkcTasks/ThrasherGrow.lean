import Mathlib.Tactic.Ring
import ZbkcTasks.ManagerCache
import ZbkcTasks.ThrasherInit

/-! `grow_pool` on top of the manager, whose methods answer the thrasher's calls. The cap is a list where
a number is meant, and a number is never greater than a list. -/

namespace ZbkcTasks

open List Prog

def Cmd.served : (c : Cmd) → Option (Mgr c.Ret)
  | .getPool => some ZbkcTasks.getPool
  | .expandPool pool growBy maxPgs => some (ZbkcTasks.expandPool pool growBy maxPgs)
  | .setPoolPgpnum pool => some (ZbkcTasks.setPoolPgpnum pool)
  | .listPools => some ZbkcTasks.listPools
  | _ => none

def report {α : Type} : Outcome PyError α → Option (Except CommandError α)
  | .ret a => some (.ok a)
  | .exn (.command e) => some (.error e)
  | .exn _ => some (.error (.other ""))
  | .cut => none

/-- The call is a run of the manager's method, in the manager's own world. -/
def Cmd.ServedBy {η : Type} (F : Env mgrSig Manager η) (c : Cmd) (x : World mgrSig Manager η)
    (a : Except CommandError c.Ret) (x' : World mgrSig Manager η) : Prop :=
  match c.served with
  | some p => ∃ r, Exec F p x r x' ∧ report r = some a
  | none => x' = x

def managedEnv {η : Type} (F : Env mgrSig Manager η) :
    Env taskSig Thrasher (World mgrSig Manager η) := fun o t x a t' x' =>
  Others t t' ∧ match o, a with
    | .cmd c, a => c.ServedBy F x a x'
    | _, _ => x' = x

/-- A cluster that answers as it likes; the cache is the manager's own. -/
def anyCluster : Env mgrSig Manager Unit := fun _ m _ _ m' _ => m' = m

def Capped (bound : Int) (x : World mgrSig Manager Unit) : Prop :=
  ∀ e ∈ x.log, ∀ pool v, e.op = .poolSetResult pool "pg_num" v → v ≤ bound

/-! ### Without growth -/

variable {β : Type} {P : β → MgrW Unit → Prop} {pool : String} {m : Manager} {v : Int}

section Capped

variable {pools : PoolMap} {bound : Int} {x : MgrW Unit}

/-- The cache is as it was, and nothing above the bound was asked for. -/
structure Still (pools : PoolMap) (bound : Int) (x : World mgrSig Manager Unit) : Prop where
  cache : x.st.pools = pools
  capped : Capped bound x

def MgrOp.Within (bound : Int) : MgrOp → Prop
  | .poolSetResult _ prop v => prop = "pg_num" → v ≤ bound
  | _ => True

theorem Still.push {o : MgrOp} {a : o.Ans} {u : Unit} (h : Still pools bound x) (ho : o.Within bound)
    (hm : m = x.st) : Still pools bound (x.push o a m u) := by
  subst hm
  refine ⟨h.cache, ?_⟩
  rw [Capped, World.push_log, forall_mem_cons]
  refine ⟨?_, h.capped⟩
  rintro pool v hop
  change o = _ at hop
  subst hop
  exact ho rfl

variable {A : MgrOp → Manager → Unit → Prop} (hA : ∀ o m u, A o m u)

include hA

theorem still_ask {o : MgrOp} (ho : o.Within bound) {k : o.Ans → Mgr β} (hx : Still pools bound x)
    (hk : ∀ a x', Still pools bound x' → x'.st = x.st →
      wp anyCluster A (k a) (gives P (Still pools bound)) x') :
    wp anyCluster A (ask o >>= k) (gives P (Still pools bound)) x :=
  ⟨hA _ _ _, fun a _ _ hm => hk a _ (hx.push ho hm) hm⟩

omit hA in
theorem still_ofCommand (hx : Still pools bound x) (a : Except CommandError β) (hP : ∀ b, P b x) :
    wp anyCluster A (ofCommand a) (gives P (Still pools bound)) x := by
  cases a with
  | ok b => exact hP b
  | error e => exact hx

theorem still_getPool (hx : Still pools bound x) :
    wp anyCluster A getPool (gives (fun _ => Still pools bound) (Still pools bound)) x := by
  change wp anyCluster A (pickOne (sorted x.st.pools.keys)) _ x
  cases sorted x.st.pools.keys with
  | nil => exact hx
  | cons p ps => exact still_ask hA (by trivial) hx fun _ _ hx' _ => hx'

theorem still_setPoolPropertyLoop {prop : String} {val : Int} (hval : prop = "pg_num" → val ≤ bound)
    (retries : Nat) :
    ∀ x, Still pools bound x → wp anyCluster A (setPoolPropertyLoop pool prop val retries)
      (gives (fun _ => Still pools bound) (Still pools bound)) x := by
  have hround : ∀ {rest : Mgr Unit}, (∀ x, Still pools bound x →
        wp anyCluster A rest (gives (fun _ => Still pools bound) (Still pools bound)) x) →
      ∀ x, Still pools bound x → wp anyCluster A
        ((ask (.poolSetResult pool prop val) >>= ofCommand) >>= fun r =>
          if r ≠ 11 then .ret () else rest)
        (gives (fun _ => Still pools bound) (Still pools bound)) x := by
    intro rest hrest x hx
    refine wp_seq (P := fun _ => Still pools bound) ?_ fun r x' hx' => ?_
    · exact still_ask hA (by exact hval) hx fun a x' hx' _ => still_ofCommand hx' a fun _ => hx'
    · split
      · exact hx'
      · exact hrest x' hx'
  induction retries with
  | zero =>
    unfold setPoolPropertyLoop
    exact hround fun x hx => hx
  | succ retries ih =>
    unfold setPoolPropertyLoop
    exact hround fun x hx => still_ask hA (by trivial) hx fun _ x' hx' _ => ih x' hx'

theorem still_expandPool {growBy : Int}
    (hpools : ∀ pool v, pools.lookup pool = some v → growBy = 0 ∧ v ≤ bound) (pool : String)
    (maxPgs : MaxPgs) (hx : Still pools bound x) : wp anyCluster A (expandPool pool growBy maxPgs)
      (gives (fun _ => Still pools bound) (Still pools bound)) x := by
  refine wp_seq (P := fun _ => Still pools bound) ?_ fun _ x1 hx1 => ?_
  · change wp anyCluster A (pyAssert _ "") _ x
    unfold pyAssert
    split
    · exact hx
    · exact hx
  refine wp_seq (P := fun _ => Still pools bound) ?_ fun creating x2 hx2 => ?_
  · refine wp_seq (P := fun _ => Still pools bound) ?_ fun _ _ hx' => hx'
    exact still_ask hA (by trivial) hx1 fun a x' hx' _ => still_ofCommand hx' a fun _ => hx'
  split
  · exact hx2
  have hget : ∀ x, Still pools bound x → wp anyCluster A (poolPgNum pool)
      (gives (fun v x' => Still pools bound x' ∧ pools.lookup pool = some v)
        (Still pools bound)) x := by
    intro x hx
    exact wp_poolPgNum (fun n hn => ⟨hx, hx.cache ▸ hn⟩) hx
  refine wp_seq (hget x2 hx2) ?_
  rintro _ x3 ⟨hx3, -⟩
  split
  · exact hx3
  refine wp_seq (hget x3 hx3) ?_
  rintro v x4 ⟨hx4, hv⟩
  obtain ⟨hzero, hbound⟩ := hpools pool v hv
  rw [hzero, add_zero]
  refine wp_seq (still_setPoolPropertyLoop hA (fun _ => hbound) 50 x4 hx4)
    fun _ x5 hx5 => ?_
  refine ⟨?_, hx5.capped⟩
  rw [hx5.cache]
  exact insert_eq_self_iff.mpr hv

end Capped

/-! ### With growth -/

section Grows

variable (log : List (Event mgrSig Manager Unit))

theorem exec_pickOne {x : MgrW Unit} : ∀ {pools : List String}, pool ∈ pools →
    ∃ log', Exec anyCluster (pickOne pools) x (.ret pool) ⟨x.st, x.ext, log'⟩
  | [], h => absurd h not_mem_nil
  | p :: ps, h => by
      obtain ⟨i, rfl⟩ := get_of_mem h
      exact ⟨_, .op (a := i) rfl (.ret _ _)⟩

theorem exec_getPool (hpool : pool ∈ m.pools) :
    ∃ log', Exec anyCluster getPool ⟨m, (), log⟩ (.ret pool) ⟨m, (), log'⟩ := by
  have hmem : pool ∈ sorted m.pools.keys := by
    rw [mem_sorted, Finmap.mem_keys]
    exact hpool
  obtain ⟨log', hrun⟩ := exec_pickOne (x := ⟨m, (), log⟩) hmem
  exact ⟨log', .read hrun⟩

theorem exec_poolPgNum (hv : m.pools.lookup pool = some v) :
    Exec anyCluster (poolPgNum pool) ⟨m, (), log⟩ (.ret v) ⟨m, (), log⟩ := by
  apply Exec.read
  rw [hv]
  exact .ret v _

theorem exec_expandPool (hv : m.pools.lookup pool = some v) (growBy : Int) (xs : List Osd) :
    ∃ log', Exec anyCluster (expandPool pool growBy (.list xs)) ⟨m, (), log⟩ (.ret ())
      ⟨{ m with pools := m.pools.insert pool (v + growBy) }, (), log'⟩ ∧
      ∃ e ∈ log', e.op = .poolSetResult pool "pg_num" (v + growBy) := by
  have hpool : pool ∈ m.pools := Finmap.mem_iff.mpr ⟨v, hv⟩
  let dumped : Event mgrSig Manager Unit := ⟨.pgDump, .ok [], m, ()⟩
  let set : Event mgrSig Manager Unit := ⟨.poolSetResult pool "pg_num" (v + growBy), .ok 0, m, ()⟩
  refine ⟨set :: dumped :: log, ?_, set, .head _, rfl⟩
  have hdump : Exec anyCluster getNumCreating ⟨m, (), log⟩ (.ret 0) ⟨m, (), dumped :: log⟩ :=
    .op (a := (Except.ok [] : Except CommandError (List PgStat))) rfl (.ret _ _)
  have hset : Exec anyCluster (setPoolProperty pool "pg_num" (v + growBy)) ⟨m, (), dumped :: log⟩
      (.ret ()) ⟨m, (), set :: dumped :: log⟩ :=
    .op (a := (Except.ok 0 : Except CommandError Int)) rfl (.ret _ _)
  refine exec_bind (exec_pyAssert hpool) (exec_bind hdump ?_)
  refine exec_bind (exec_poolPgNum _ hv) (exec_bind (exec_poolPgNum _ hv) (exec_bind hset ?_))
  exact .read (.write (.ret _ _))

end Grows

abbrev Both := World taskSig Thrasher (World mgrSig Manager Unit)

section Thrasher

variable {config : ThrasherConfig} {inOsds outOsds : List Osd} {pools : PoolMap} {bound : Int}
  {t : Thrasher}

structure Unmoved (config : ThrasherConfig) (inOsds outOsds : List Osd) (pools : PoolMap)
    (bound : Int) (w : Both) : Prop where
  constructed : Constructed config inOsds outOsds w.st
  still : Still pools bound w.ext

theorem unmoved_manager {w : Both} (h : Unmoved config inOsds outOsds pools bound w) {c : Cmd}
    {p : Mgr c.Ret} (hc : c.served = some p) (hp : wp anyCluster (fun _ _ _ => True) p
      (gives (fun _ => Still pools bound) (Still pools bound)) w.ext) :
    wp (managedEnv anyCluster) (fun _ _ _ => True) (manager c)
      (gives (fun _ => Unmoved config inOsds outOsds pools bound)
        (Unmoved config inOsds outOsds pools bound)) w := by
  rw [wp_manager h.constructed.started]
  refine ⟨trivial, fun a t x hstep => ?_⟩
  obtain ⟨ho, hserved⟩ := hstep
  change c.ServedBy anyCluster w.ext a x at hserved
  rw [Cmd.ServedBy, hc] at hserved
  obtain ⟨r, hrun, -⟩ := hserved
  have hx : Still pools bound x := by
    have hpost := wp_post hp hrun
    cases r with
    | ret | exn | cut => exact hpost
  have hw : Unmoved config inOsds outOsds pools bound (w.push (S := taskSig) (.cmd c) a t x) :=
    ⟨h.constructed.same ho.sameSettings, hx⟩
  cases a with
  | ok | error => exact hw

theorem unmoved_growPool
    (hpools : ∀ pool v, pools.lookup pool = some v → config.poolGrowBy.getD 10 = 0 ∧ v ≤ bound)
    {w : Both} (h : Unmoved config inOsds outOsds pools bound w) :
    wp (managedEnv anyCluster) (fun _ _ _ => True) growPool
      (gives (fun _ => Unmoved config inOsds outOsds pools bound)
        (Unmoved config inOsds outOsds pools bound)) w := by
  refine wp_seq (unmoved_manager h rfl (still_getPool (fun _ _ _ => trivial) h.still)) ?_
  intro pool w1 h1
  have hstarted := h1.constructed.started
  rw [wp_bind, wp_log hstarted, chain_ret, wp_bind, wp_attr (hstarted _ rfl rfl), chain_ret, wp_bind,
    wp_attr (hstarted _ rfl rfl), chain_ret, h1.constructed.sameConfig]
  exact unmoved_manager h1 rfl
    (still_expandPool (fun _ _ _ => trivial) hpools pool _ h1.still)

theorem exec_attr {η : Type} {E : Env taskSig Thrasher η} {w : W η} {a : Attr} (f : Thrasher → β)
    (ha : a ∈ w.st.assigned) : Exec E (attr a f) w (.ret (f w.st)) w := by
  apply Exec.read
  rw [if_pos ha]
  exact .ret _ _

theorem exec_manager {x x' : MgrW Unit}
    (log : List (Event taskSig Thrasher (MgrW Unit))) {c : Cmd} {p : Mgr c.Ret} {v : c.Ret}
    (ht : Started t) (hc : c.served = some p) (hp : Exec anyCluster p x (.ret v) x') :
    ∃ log', Exec (managedEnv anyCluster) (manager c) ⟨t, x, log⟩ (.ret v) ⟨t, x', log'⟩ := by
  have hserved : c.ServedBy anyCluster x (.ok v) x' := by
    rw [Cmd.ServedBy, hc]
    exact ⟨_, hp, rfl⟩
  have hcall : Exec (managedEnv anyCluster) (call c) ⟨t, x, log⟩ (.ret v) _ :=
    .op (a := (Except.ok v : Except CommandError c.Ret)) ⟨Others.refl t, hserved⟩ (.ret v _)
  exact ⟨_, exec_bind (exec_attr _ (ht _ rfl rfl)) hcall⟩

theorem exec_growPool (ht : Constructed config inOsds outOsds t) (hv : m.pools.lookup pool = some v)
    (mlog : List (Event mgrSig Manager Unit)) (log : List (Event taskSig Thrasher (MgrW Unit))) :
    ∃ m' mlog' log', Exec (managedEnv anyCluster) growPool ⟨t, ⟨m, (), mlog⟩, log⟩ (.ret ())
        ⟨t, ⟨m', (), mlog'⟩, log'⟩ ∧ m'.pools.lookup pool = some (v + config.poolGrowBy.getD 10) ∧
      ∃ e ∈ mlog', e.op = .poolSetResult pool "pg_num" (v + config.poolGrowBy.getD 10) := by
  have hlog : ∀ w : Both, w.st = t → Exec (managedEnv anyCluster) ZbkcTasks.log w (.ret ()) w := by
    rintro w rfl
    exact exec_bind (exec_attr _ (ht.started _ rfl rfl)) (exec_attr _ (ht.started _ rfl rfl))
  obtain ⟨mlog1, hget⟩ := exec_getPool mlog (Finmap.mem_iff.mpr ⟨v, hv⟩)
  obtain ⟨log1, hdraw⟩ := exec_manager log ht.started (c := .getPool) rfl hget
  obtain ⟨mlog2, hexpand, hissued⟩ := exec_expandPool mlog1 hv (config.poolGrowBy.getD 10)
    (repeatList (config.maxPgsPerPoolOsd.getD 1200) (inOsds ++ outOsds))
  obtain ⟨log2, hgrow⟩ := exec_manager log1 ht.started (c := .expandPool _ _ _) rfl hexpand
  refine ⟨{ m with pools := m.pools.insert pool (v + config.poolGrowBy.getD 10) }, mlog2, log2, ?_,
    Finmap.lookup_insert _, hissued⟩
  refine exec_bind hdraw (exec_bind (hlog _ rfl) ?_)
  refine exec_bind (exec_attr _ (ht.started _ rfl rfl)) ?_
  refine exec_bind (exec_attr _ (ht.started _ rfl rfl)) ?_
  rw [ht.sameConfig, ht.maxPgs]
  exact hgrow

theorem session_growPool (ht : Constructed config inOsds outOsds t) (k : Nat) :
    ∀ (m : Manager) (v : Int) mlog log, m.pools.lookup pool = some v →
      ∃ ws, Session (managedEnv anyCluster) ⟨t, ⟨m, (), mlog⟩, log⟩
          (List.replicate (k + 1) growPool) ws ∧ ∃ w ∈ ws, ∃ e ∈ w.ext.log,
          e.op = .poolSetResult pool "pg_num" (v + (k + 1) * config.poolGrowBy.getD 10) := by
  induction k with
  | zero =>
    intro m v mlog log hv
    obtain ⟨m', mlog', log', hrun, -, e, he, hop⟩ := exec_growPool ht hv mlog log
    refine ⟨_, .cons hrun nofun (.nil _), _, .head _, e, he, ?_⟩
    rw [hop, Nat.cast_zero, zero_add, one_mul]
  | succ k ih =>
    intro m v mlog log hv
    obtain ⟨m', mlog', log', hrun, hv', -⟩ := exec_growPool ht hv mlog log
    obtain ⟨ws, hrest, w, hw, e, he, hop⟩ := ih m' _ mlog' log' hv'
    refine ⟨_, .cons hrun nofun hrest, w, .tail _ hw, e, he, ?_⟩
    rw [hop]
    congr 1
    push_cast
    ring

/-- **The cap on growth.** No `grow_pool` asks for a `pg_num` above `max_pgs_per_pool_osd` times the number
of OSDs exactly if there is no pool, or pools do not grow and are below that already. -/
theorem pool_growth_capped_iff {t : Thrasher} (ht : Constructed config inOsds outOsds t)
    (hby : 0 ≤ config.poolGrowBy.getD 10) (pools : PoolMap) (id : Nat) :
    (∀ k ws, Session (managedEnv anyCluster) ⟨t, ⟨⟨pools, id⟩, (), []⟩, []⟩
        (List.replicate k growPool) ws →
      ∀ w ∈ ws, ∀ e ∈ w.ext.log, ∀ pool v, e.op = .poolSetResult pool "pg_num" v →
        v ≤ config.maxPgsPerPoolOsd.getD 1200 * (inOsds ++ outOsds).length) ↔
      ∀ pool v, pools.lookup pool = some v → config.poolGrowBy.getD 10 = 0 ∧
        v ≤ config.maxPgsPerPoolOsd.getD 1200 * (inOsds ++ outOsds).length := by
  generalize hbound : config.maxPgsPerPoolOsd.getD 1200 * ((inOsds ++ outOsds).length : Int) = bound
  constructor
  · intro hcapped pool v hv
    have hle : ∀ k : Nat, v + (k + 1) * config.poolGrowBy.getD 10 ≤ bound := by
      intro k
      obtain ⟨ws, hrun, w, hw, e, he, hop⟩ := session_growPool ht k ⟨pools, id⟩ v [] [] hv
      exact hcapped _ ws hrun w hw e he pool _ hop
    have hzero : config.poolGrowBy.getD 10 = 0 := by
      by_contra hne
      -- enough calls go beyond any bound
      have hpos : 1 ≤ config.poolGrowBy.getD 10 := by omega
      apply lt_irrefl bound
      calc bound < v + ((bound - v).toNat + 1) * 1 := by omega
        _ ≤ v + ((bound - v).toNat + 1) * config.poolGrowBy.getD 10 :=
            add_le_add_right (Int.mul_le_mul_of_nonneg_left hpos (by omega)) v
        _ ≤ bound := hle _
    have hk := hle 0
    rw [hzero, mul_zero, add_zero] at hk
    exact ⟨hzero, hk⟩
  · intro hpools k ws hrun w hw
    have hstart : Unmoved config inOsds outOsds pools bound ⟨t, ⟨⟨pools, id⟩, (), []⟩, []⟩ :=
      ⟨ht, rfl, fun e he => absurd he not_mem_nil⟩
    refine (hrun.invariant (A := fun _ _ _ => True) hstart ?_ w hw).still.capped
    intro p hp w' hw'
    rw [eq_of_mem_replicate hp]
    refine wp_mono ?_ (unmoved_growPool hpools hw')
    rintro (_ | e | _) w'' h
    · exact h
    · exact h
    · exact h

end Thrasher

theorem ready_constructed (config : ThrasherConfig) (inOsds outOsds liveOsds deadOsds : List Osd)
    (tool : Bool) :
    Constructed config inOsds outOsds (.ready config inOsds outOsds liveOsds deadOsds tool) :=
  ⟨ready_started _ _ _ _ _ _, rfl, rfl⟩

def fourPerOsd : ThrasherConfig := { maxPgsPerPoolOsd := some 4 }

def threeOsds : Thrasher := .ready fourPerOsd [0, 1, 2] [] [0, 1, 2] [] true

theorem pool_growth_capped_iff_threeOsds :
    (∀ k ws, Session (managedEnv anyCluster) ⟨threeOsds, ⟨⟨rbdOnly, 0⟩, (), []⟩, []⟩
        (List.replicate k growPool) ws →
      ∀ w ∈ ws, ∀ e ∈ w.ext.log, ∀ pool v, e.op = .poolSetResult pool "pg_num" v → v ≤ 4 * 3) ↔
      ∀ pool v, rbdOnly.lookup pool = some v → (10 : Int) = 0 ∧ v ≤ 4 * 3 :=
  pool_growth_capped_iff (ready_constructed fourPerOsd [0, 1, 2] [] [0, 1, 2] [] true) (by decide)
    rbdOnly 0

/-- A pool of 8 PGs, below the cap of 12, is set to 18 by the first call. -/
theorem growPool_beyond_cap :
    ∃ ws, Session (managedEnv anyCluster) ⟨threeOsds, ⟨⟨rbdOnly, 0⟩, (), []⟩, []⟩ [growPool] ws ∧
      ∃ w ∈ ws, ∃ e ∈ w.ext.log, ∃ v, e.op = .poolSetResult "rbd" "pg_num" v ∧ 4 * 3 < v := by
  have hpool : rbdOnly.lookup "rbd" = some 8 := by decide
  obtain ⟨ws, hrun, w, hw, e, he, hop⟩ := session_growPool
    (ready_constructed fourPerOsd [0, 1, 2] [] [0, 1, 2] [] true) 0 ⟨rbdOnly, 0⟩ 8 [] [] hpool
  exact ⟨ws, hrun, w, hw, e, he, _, hop, by decide⟩

end ZbkcTasks

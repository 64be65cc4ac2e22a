import ZbkcTasks.ManagerCache
import ZbkcTasks.ProgUses

/-! Several managers on one cluster, each with a counter and a cache of its own, so a name is unique only
against the manager itself. A `Ledger` follows the calls of a run and tells when all are. -/

def Outcome.returned {ε α : Type} : Outcome ε α → Bool
  | .ret _ => true
  | _ => false

namespace ZbkcTasks

open Finmap List Prog

def MgrOp.Valid : MgrOp → PoolMap → Prop
  | .poolGet pool _, c => pool ∈ c
  | .poolCreate pool _ _, c => pool ∉ c
  | .poolSet pool _ _, c => pool ∈ c
  | .poolSetResult pool _ _, c => pool ∈ c
  | .rmpool pool, c => pool ∈ c
  | _, _ => True

/-- The answers that accept a command. What is read is true of the cluster. -/
def MgrOp.Accepts : (o : MgrOp) → PoolMap → o.Ans → Prop
  | .osdDump, c, a => ∃ names, a = .ok names ∧ ∀ pool, pool ∈ names ↔ pool ∈ c
  | .poolGet pool prop, c, a => ∃ n, a = .ok n ∧ (prop = "pg_num" → c.lookup pool = some n)
  | .poolCreate _ _ _, _, a => a = .ok ()
  | .poolSet _ _ _, _, a => a = .ok ()
  | .poolSetResult _ _ _, _, a => a = .ok 0
  | .rmpool _, _, a => a = .ok ()
  | _, _, _ => True

/-- A command that makes sense is accepted and applied; any other one changes nothing. -/
def acceptEnv : Env mgrSig Manager PoolMap := fun o m c a m' c' =>
  m' = m ∧ (o.Valid c → o.Accepts c a ∧ c' = o.change c) ∧ (¬ o.Valid c → c' = c)

structure Site where
  cluster : PoolMap
  managers : List Manager

inductive SiteEvent
  | constructed
  /-- A call of the `i`-th manager, with the site as it was when the call was made. -/
  | called (i : Nat) (site : Site) (call : PoolCall) (result : Outcome PyError (Option String))

inductive SiteStep : Site → SiteEvent → Site → Prop
  | construct {s : Site} {w : World mgrSig Manager PoolMap} :
      Exec acceptEnv initManager ⟨⟨∅, 0⟩, s.cluster, []⟩ (.ret ()) w →
      SiteStep s .constructed ⟨w.ext, s.managers ++ [w.st]⟩
  | call {s : Site} {i : Nat} {m : Manager} {c : PoolCall} {r w} :
      s.managers[i]? = some m → Exec acceptEnv c.run ⟨m, s.cluster, []⟩ r w →
      SiteStep s (.called i s c r) ⟨w.ext, s.managers.set i w.st⟩

inductive SiteRun : Site → List SiteEvent → Site → Prop
  | nil (s : Site) : SiteRun s [] s
  | cons {s s₁ s' : Site} {e : SiteEvent} {es : List SiteEvent} :
      SiteStep s e s₁ → SiteRun s₁ es s' → SiteRun s (e :: es) s'

/-- If the event is a `create_pool_with_unique_name`, it has returned a name that no pool had. -/
def SiteEvent.Fresh : SiteEvent → Prop
  | .called _ s (.createPoolWithUniqueName _ _ _ _) r => ∃ name, r = .ret (some name) ∧ name ∉ s.cluster
  | _ => True

instance (e : SiteEvent) : Decidable e.Fresh := match e with
  | .called _ s (.createPoolWithUniqueName _ _ _ _) (.ret (some name)) =>
      decidable_of_iff (name ∉ s.cluster) ⟨fun h => ⟨name, rfl, h⟩, by rintro ⟨_, ⟨⟩, h⟩; exact h⟩
  | .called _ _ (.createPoolWithUniqueName _ _ _ _) (.ret none)
  | .called _ _ (.createPoolWithUniqueName _ _ _ _) (.exn _)
  | .called _ _ (.createPoolWithUniqueName _ _ _ _) .cut => isFalse nofun
  | .constructed | .called _ _ (.createPool ..) _ | .called _ _ (.removePool _) _
  | .called _ _ (.expandPool ..) _ | .called _ _ (.setPoolPgpnum _) _ => isTrue trivial

/-! ### Names

What the calls alone tell, whatever the manager's own fields are. -/

/-- The pools that there are, and of one manager the names it was asked for and the pools it knows of. -/
@[ext]
structure View where
  there : Set String
  asked : Nat
  known : Set String

namespace View

/-- A pool is created unless the manager knows one of that name. -/
def create (v : View) (name : String) (returned : Bool) : View :=
  { v with
    there := {pool | pool ∈ v.there ∨ pool = name ∧ name ∉ v.known}
    known := {pool | pool ∈ v.known ∨ pool = name ∧ returned = true} }

/-- A pool is removed if the manager knows it. -/
def remove (v : View) (name : String) : View :=
  { v with
    there := {pool | pool ∈ v.there ∧ (pool = name → name ∉ v.known)}
    known := {pool | pool ∈ v.known ∧ pool ≠ name} }

def after (v : View) (returned : Bool) : PoolCall → View
  | .createPool pool _ _ _ _ => v.create pool returned
  | .createPoolWithUniqueName _ _ _ _ =>
      { v.create (uniquePoolName v.asked) returned with asked := v.asked + 1 }
  | .removePool pool => v.remove pool
  | .expandPool _ _ _ | .setPoolPgpnum _ => v

/-- The name that is due next, by the number of names asked for, belongs to no pool and the manager
knows of none. -/
def Free (v : View) : Prop := uniquePoolName v.asked ∉ v.there ∧ uniquePoolName v.asked ∉ v.known

end View

/-- The views of all managers, by the order of their construction. -/
structure Ledger where
  there : Set String
  built : Nat
  asked : Nat → Nat
  known : Nat → Set String

namespace Ledger

def start (c : PoolMap) : Ledger := ⟨{pool | pool ∈ c}, 0, fun _ => 0, fun _ => ∅⟩

def view (l : Ledger) (i : Nat) : View := ⟨l.there, l.asked i, l.known i⟩

open Function in
/-- Of the event only the call counts, who made it, and whether it returned. -/
def after (l : Ledger) : SiteEvent → Ledger
  | .constructed => ⟨l.there, l.built + 1, update l.asked l.built 0, update l.known l.built l.there⟩
  | .called i _ c r =>
      let v := (l.view i).after r.returned c
      ⟨v.there, l.built, update l.asked i v.asked, update l.known i v.known⟩

def Free (l : Ledger) : SiteEvent → Prop
  | .called i _ (.createPoolWithUniqueName _ _ _ _) _ => (l.view i).Free
  | _ => True

def FreeAlong : Ledger → List SiteEvent → Prop
  | _, [] => True
  | l, e :: es => l.Free e ∧ (l.after e).FreeAlong es

end Ledger

def viewOf (m : Manager) (c : PoolMap) : View := ⟨{pool | pool ∈ c}, m.nextPoolId, {pool | pool ∈ m.pools}⟩

theorem mem_cluster_iff {m m' : Manager} {c c' : PoolMap} (h : viewOf m c = viewOf m' c') (pool : String) :
    pool ∈ c ↔ pool ∈ c' :=
  Set.ext_iff.mp (congrArg View.there h) pool

theorem mem_pools_iff {m m' : Manager} {c c' : PoolMap} (h : viewOf m c = viewOf m' c') (pool : String) :
    pool ∈ m.pools ↔ pool ∈ m'.pools :=
  Set.ext_iff.mp (congrArg View.known h) pool

variable {s s' : Site} {c : PoolMap} {w : MgrW PoolMap} {e : SiteEvent} {m : Manager} {pool : String}
  {o : MgrOp} {events : List SiteEvent} {v : View} {l : Ledger}

/-! ### The commands and the names -/

/-- A command that neither creates nor removes a pool. -/
def MgrOp.Quiet : MgrOp → Prop
  | .poolCreate _ _ _ => False
  | .rmpool _ => False
  | _ => True

theorem mem_change (ho : o.Quiet) (hvalid : o.Valid c) : pool ∈ o.change c ↔ pool ∈ c := by
  have hset : ∀ {p prop : String} {n : Int}, p ∈ c →
      (pool ∈ (if prop = "pg_num" then c.insert p n else c) ↔ pool ∈ c) := by
    intro p prop n hp
    split
    · rw [mem_insert]
      exact or_iff_right_of_imp fun h => h ▸ hp
    · exact Iff.rfl
  cases o with
  | poolCreate p n profile => exact ho.elim
  | rmpool p => exact ho.elim
  | poolSet p prop val =>
    cases val with
    | int n => exact hset hvalid
    | text s => exact Iff.rfl
  | poolSetResult p prop n => exact hset hvalid
  | _ => exact Iff.rfl

theorem viewOf_quiet {a : o.Ans} {m' : Manager} {c' : PoolMap} (ho : o.Quiet)
    (hE : acceptEnv o m c a m' c') : viewOf m' c' = viewOf m c := by
  obtain ⟨rfl, hvalid, hinvalid⟩ := hE
  suffices hmem : ∀ pool, pool ∈ c' ↔ pool ∈ c by
    exact View.ext (Set.ext hmem) rfl rfl
  intro pool
  by_cases hv : o.Valid c
  · rw [(hvalid hv).2]
    exact mem_change ho hv
  · rw [hinvalid hv]

/-- Commands that do not change the names, and updates of the cache that keep its keys. -/
def quietUsage (known : Set String) : Usage mgrSig Manager PyError where
  ops := MgrOp.Quiet
  acts p := ∃ pool ∈ known, ∃ n, p = updatePools (·.insert pool n)
  throws _ := True
  reads m := {pool | pool ∈ m.pools} = known

theorem view_of_uses {α : Type} {p : Mgr α} (hp : Uses (quietUsage {pool | pool ∈ w.st.pools}) p) :
    wp acceptEnv (fun _ _ _ => True) p (fun _ w' => viewOf w'.st w'.ext = viewOf w.st w.ext) w := by
  let I : MgrW PoolMap → Prop := fun w' => viewOf w'.st w'.ext = viewOf w.st w.ext
  have hwp := hp.wp (E := acceptEnv) (A := fun _ _ _ => True) (I := I) (K := I) (fun _ h => h)
    (fun w' h => congrArg View.known h) ?_ ?_ w rfl
  · exact wp_mono (fun _ _ h => settles_always.mp h) hwp
  · exact fun o w' ho hw' => ⟨trivial, fun a m c hE => (viewOf_quiet ho hE).trans hw'⟩
  · rintro _ w' ⟨pool, hpool, n, rfl⟩ hw'
    have hmem : pool ∈ w'.st.pools := (mem_pools_iff hw' pool).mpr hpool
    have hinsert : viewOf { w'.st with pools := w'.st.pools.insert pool n } w'.ext = viewOf w'.st w'.ext :=
      View.ext rfl rfl (Set.ext fun p => mem_insert.trans (or_iff_right_of_imp fun h => h ▸ hmem))
    exact hinsert.trans hw'

section Uses

variable {known : Set String}

theorem uses_ask (ho : o.Quiet) : Uses (quietUsage known) (ask o) := .op ho .ret

theorem uses_command {β : Type} (ho : o.Quiet) (hans : o.Ans = Except CommandError β) :
    Uses (quietUsage known) (ask o >>= fun a => ofCommand (hans ▸ a)) :=
  (uses_ask ho).bind fun _ => uses_ofCommand (fun _ => trivial) _

theorem uses_setPoolPropertyLoop (pool prop : String) (val : Int) (retries : Nat) :
    Uses (quietUsage known) (setPoolPropertyLoop pool prop val retries) := by
  induction retries with
  | zero =>
    unfold setPoolPropertyLoop
    exact .bind (uses_command (by trivial) rfl) fun r => .ite (.ret ()) (.throw trivial)
  | succ retries ih =>
    unfold setPoolPropertyLoop
    exact .bind (uses_command (by trivial) rfl) fun r =>
      .ite (.ret ()) ((uses_ask (by trivial)).bind fun _ => ih)

theorem uses_poolPgNum (pool : String) : Uses (quietUsage known) (poolPgNum pool) := by
  refine .read fun m _ => ?_
  cases m.pools.lookup pool with
  | none => exact .throw trivial
  | some n => exact .ret n

theorem uses_getNumCreating : Uses (quietUsage known) getNumCreating :=
  .bind (uses_command (by trivial) rfl) fun _ => .ret _

theorem uses_expandPool (pool : String) (growBy : Int) (maxPgs : MaxPgs) :
    Uses (quietUsage known) (expandPool pool growBy maxPgs) := by
  refine .read fun m hm => ?_
  by_cases hpool : pool ∈ m.pools
  · have hknown : pool ∈ known := hm ▸ hpool
    refine .bind (uses_pyAssert (fun _ => trivial) _ _) fun _ => uses_getNumCreating.bind fun creating => ?_
    refine .ite (.ret ()) ((uses_poolPgNum pool).bind fun n => ?_)
    refine .ite (.ret ()) ((uses_poolPgNum pool).bind fun n' => ?_)
    exact (uses_setPoolPropertyLoop pool "pg_num" (n' + growBy) 50).bind fun _ =>
      .step ⟨pool, hknown, _, rfl⟩
  · have hassert : (pyAssert (pool ∈ m.pools) "" : Mgr Unit) = .throw (.assertionError "") :=
      if_neg hpool
    change Uses _ (pyAssert (pool ∈ m.pools) "" >>= _)
    rw [hassert]
    exact .throw trivial

theorem uses_setPoolPgpnum (pool : String) : Uses (quietUsage known) (setPoolPgpnum pool) := by
  refine .bind (.read fun _ _ => uses_pyAssert (fun _ => trivial) _ _) fun _ => ?_
  refine uses_getNumCreating.bind fun creating => .ite (.ret ()) ?_
  exact (uses_poolPgNum pool).bind fun n => uses_setPoolPropertyLoop pool "pgp_num" n 50

end Uses

/-! ### The calls and the names -/

theorem view_poolSet {prop : String} {val : SetVal} (hpool : pool ∈ w.ext) :
    wp acceptEnv (fun _ _ _ => True) (ask (.poolSet pool prop val) >>= ofCommand)
      (gives (fun _ w' => viewOf w'.st w'.ext = viewOf w.st w.ext) fun _ => False) w := by
  refine ⟨trivial, fun a m c hE => ?_⟩
  have hview := viewOf_quiet (o := .poolSet pool prop val) trivial hE
  obtain ⟨rfl, -⟩ := hE.2.1 hpool
  exact hview

/-- What `create_pool` does once the pool has been created cannot fail. -/
theorem view_setPool (pgNum : Int) (minSize : Option Int) (overwrites : Bool) (hpool : pool ∈ w.ext) :
    wp acceptEnv (fun _ _ _ => True) (do
        setMinSize pool minSize
        setOverwrites pool overwrites
        updatePools (·.insert pool pgNum)
        ask (.sleep 1))
      (gives (fun _ w' => viewOf w'.st w'.ext =
        { viewOf w.st w.ext with known := {p | p ∈ w.st.pools ∨ p = pool} }) fun _ => False) w := by
  apply wp_seq (P := fun _ w' => viewOf w'.st w'.ext = viewOf w.st w.ext)
  · cases minSize with
    | none => exact rfl
    | some n => exact view_poolSet hpool
  intro _ w1 h1
  apply wp_seq (P := fun _ w' => viewOf w'.st w'.ext = viewOf w.st w.ext)
  · cases overwrites with
    | false => exact h1
    | true =>
      refine wp_result (fun _ _ h => h.trans h1) (view_poolSet ?_)
      exact (mem_cluster_iff h1 pool).mpr hpool
  intro _ w2 h2
  refine ⟨trivial, fun a m c hE => ?_⟩
  refine (viewOf_quiet (o := .sleep 1) trivial hE).trans (View.ext ?_ ?_ (Set.ext fun p => ?_))
  · exact Set.ext (mem_cluster_iff h2)
  · exact id (congrArg View.asked h2 : w2.st.nextPoolId = w.st.nextPoolId)
  · exact mem_insert.trans (or_comm.trans (or_congr_left (mem_pools_iff h2 p)))

/-- What `create_pool` does to the names, and that it returns if nobody has used the name. -/
structure Creation (pool : String) (w : MgrW PoolMap) (r : Outcome PyError Unit) (w' : MgrW PoolMap) :
    Prop where
  view : viewOf w'.st w'.ext = (viewOf w.st w.ext).create pool r.returned
  unknown : ∀ a, r = .ret a → pool ∉ w.st.pools
  returns : pool ∉ w.ext → pool ∉ w.st.pools → r = .ret ()

theorem wp_createPool (pgNum : Int) (profile : Option String) (minSize : Option Int) (overwrites : Bool) :
    wp acceptEnv (fun _ _ _ => True) (createPool pool pgNum profile minSize overwrites)
      (Creation pool w) w := by
  have hfailed : ∀ {w' : MgrW PoolMap} {e : PyError}, pool ∈ w.st.pools ∨ pool ∈ w.ext →
      viewOf w'.st w'.ext = viewOf w.st w.ext → Creation pool w (.exn e) w' := by
    intro w' e hused hview
    refine ⟨hview.trans ?_, nofun, fun hcluster hcache => (hused.elim hcache hcluster).elim⟩
    refine View.ext (Set.ext fun p => ?_) rfl (Set.ext fun p => ?_)
    · refine (or_iff_left_of_imp ?_).symm
      rintro ⟨rfl, hknown⟩
      exact hused.resolve_left hknown
    · refine (or_iff_left_of_imp ?_).symm
      rintro ⟨-, ⟨⟩⟩
  unfold createPool
  rw [wp_bind]
  change wp acceptEnv _ (pyAssert (pool ∉ w.st.pools) "") _ w
  by_cases hcache : pool ∈ w.st.pools
  · rw [pyAssert, if_neg (not_not.mpr hcache)]
    exact hfailed (.inl hcache) rfl
  rw [pyAssert, if_pos hcache]
  refine ⟨trivial, ?_⟩
  rintro a m c ⟨rfl, hvalid, hinvalid⟩
  -- the pool is there afterwards, unless the command has failed because it was there before
  have hcluster : (∃ e, a = .error e ∧ pool ∈ w.ext ∧ c = w.ext) ∨
      a = .ok () ∧ ∀ p, p ∈ c ↔ p ∈ w.ext ∨ p = pool := by
    by_cases hpool : pool ∈ w.ext
    · obtain rfl := hinvalid (not_not.mpr hpool)
      cases a with
      | error e => exact .inl ⟨e, rfl, hpool, rfl⟩
      | ok u => exact .inr ⟨rfl, fun p => (or_iff_left_of_imp fun h => h ▸ hpool).symm⟩
    · obtain ⟨rfl, rfl⟩ := hvalid hpool
      exact .inr ⟨rfl, fun p => mem_insert.trans or_comm⟩
  rcases hcluster with ⟨e, rfl, hpool, rfl⟩ | ⟨rfl, hc⟩
  · exact hfailed (.inr hpool) rfl
  refine wp_mono ?_ (view_setPool pgNum minSize overwrites ((hc pool).mpr (.inr rfl)))
  rintro (u | e | _) w' hw'
  · refine ⟨hw'.trans (View.ext (Set.ext fun p => ?_) rfl (Set.ext fun p => ?_)), fun _ _ => hcache,
      fun _ _ => rfl⟩
    · exact (hc p).trans (or_congr_right (and_iff_left hcache).symm)
    · exact or_congr_right (and_iff_left rfl).symm
  · exact hw'.elim
  · exact hw'.elim

theorem wp_removePool : wp acceptEnv (fun _ _ _ => True) (removePool pool)
    (fun _ w' => viewOf w'.st w'.ext = (viewOf w.st w.ext).remove pool) w := by
  unfold removePool
  rw [wp_bind]
  change wp acceptEnv _ (pyAssert (pool ∈ w.st.pools) "") _ w
  by_cases hcache : pool ∈ w.st.pools
  · rw [pyAssert, if_pos hcache]
    refine ⟨trivial, ?_⟩
    rintro a m c ⟨rfl, hvalid, hinvalid⟩
    have hc : ∀ p, p ∈ c ↔ p ∈ w.ext ∧ (p = pool → pool ∉ w.st.pools) := by
      intro p
      by_cases hpool : pool ∈ w.ext
      · rw [(hvalid hpool).2]
        refine mem_erase.trans (and_comm.trans (and_congr_right' ?_))
        exact forall_congr' fun _ => iff_of_false id (not_not.mpr hcache)
      · rw [hinvalid hpool]
        exact (and_iff_left_of_imp fun hp (hpeq : p = pool) => absurd (hpeq ▸ hp) hpool).symm
    have hview : viewOf { w.st with pools := w.st.pools.erase pool } c =
        (viewOf w.st w.ext).remove pool :=
      View.ext (Set.ext hc) rfl (Set.ext fun p => mem_erase.trans and_comm)
    cases a with
    | ok u => exact hview
    | error e => exact hview
  · rw [pyAssert, if_neg hcache]
    refine View.ext (Set.ext fun p => ?_) rfl (Set.ext fun p => ?_)
    · exact (and_iff_left fun _ => hcache).symm
    · exact (and_iff_left_of_imp fun hp (hpeq : p = pool) => hcache (hpeq ▸ hp)).symm

theorem wp_bind_ret {α β : Type} {p : Mgr α} {f : α → β} {P : Bool → MgrW PoolMap → Prop}
    (h : wp acceptEnv (fun _ _ _ => True) p (fun r => P r.returned) w) :
    wp acceptEnv (fun _ _ _ => True) (p >>= fun a => .ret (f a)) (fun r => P r.returned) w := by
  rw [wp_bind]
  refine wp_mono ?_ h
  rintro (a | e | _) w' h'
  · exact h'
  · exact h'
  · exact h'

theorem wp_createPoolWithUniqueName (pgNum : Int) (profile : Option String) (minSize : Option Int)
    (overwrites : Bool) : wp acceptEnv (fun _ _ _ => True)
      (PoolCall.createPoolWithUniqueName pgNum profile minSize overwrites).run
      (fun r w' => viewOf w'.st w'.ext = (viewOf w.st w.ext).after r.returned
          (.createPoolWithUniqueName pgNum profile minSize overwrites) ∧
        ((∃ name, r = .ret (some name) ∧ name ∉ w.ext) ↔ (viewOf w.st w.ext).Free)) w := by
  let name := uniquePoolName w.st.nextPoolId
  let w1 : MgrW PoolMap := { w with st := { w.st with nextPoolId := w.st.nextPoolId + 1 } }
  change wp acceptEnv _ ((createPool name pgNum profile minSize overwrites >>= fun _ => .ret name) >>=
    fun name => .ret (some name)) _ w1
  rw [wp_bind, wp_bind]
  refine wp_mono ?_ (wp_createPool (w := w1) pgNum profile minSize overwrites)
  rintro (u | e | _) w' ⟨hview, hunknown, hreturns⟩
  · refine ⟨hview, ?_, fun hfree => ⟨name, rfl, hfree.1⟩⟩
    rintro ⟨_, ⟨⟩, hname⟩
    exact ⟨hname, hunknown u rfl⟩
  · exact ⟨hview, iff_of_false nofun fun hfree => nomatch hreturns hfree.1 hfree.2⟩
  · exact ⟨hview, iff_of_false nofun fun hfree => nomatch hreturns hfree.1 hfree.2⟩

/-- What a call of the code does to the names is what the ledger says. -/
theorem wp_run (c : PoolCall) : wp acceptEnv (fun _ _ _ => True) c.run
    (fun r w' => viewOf w'.st w'.ext = (viewOf w.st w.ext).after r.returned c) w := by
  cases c with
  | createPool pool pgNum profile minSize overwrites =>
    exact wp_bind_ret (P := fun b w' => viewOf w'.st w'.ext = (viewOf w.st w.ext).create pool b)
      (wp_mono (fun _ _ h => h.view) (wp_createPool pgNum profile minSize overwrites))
  | createPoolWithUniqueName pgNum profile minSize overwrites =>
    exact wp_mono (fun _ _ h => h.1) (wp_createPoolWithUniqueName pgNum profile minSize overwrites)
  | removePool pool =>
    exact wp_bind_ret (P := fun _ w' => viewOf w'.st w'.ext = (viewOf w.st w.ext).remove pool) wp_removePool
  | expandPool pool growBy maxPgs =>
    exact view_of_uses ((uses_expandPool pool growBy maxPgs).bind fun _ => .ret none)
  | setPoolPgpnum pool => exact view_of_uses ((uses_setPoolPgpnum pool).bind fun _ => .ret none)

/-- A new manager knows the pools that there are. -/
theorem wp_initManager (c : PoolMap) : wp acceptEnv (fun _ _ _ => True) initManager
    (gives (fun _ w' => viewOf w'.st w'.ext = ⟨{pool | pool ∈ c}, 0, {pool | pool ∈ c}⟩) fun _ => False)
    ⟨⟨∅, 0⟩, c, []⟩ := by
  suffices hrest : wp acceptEnv (fun _ _ _ => True) (listPools >>= fun pools =>
      updatePools (fun _ => ∅) >>= fun _ => forEach pools cachePool)
      (gives (fun _ w' => viewOf w'.st w'.ext = ⟨{pool | pool ∈ c}, 0, {pool | pool ∈ c}⟩)
        fun _ => False) ⟨⟨∅, 0⟩, c, []⟩ from hrest
  rw [wp_bind]
  refine ⟨trivial, ?_⟩
  rintro a m c' ⟨rfl, hacc, -⟩
  obtain ⟨⟨names, rfl, hnames⟩, hc'⟩ := hacc trivial
  obtain rfl : c' = c := hc'
  -- the cache has the pools of the cluster, without those that are still to come
  let I : List String → MgrW PoolMap → Prop := fun xs w => w.ext = c' ∧ w.st.nextPoolId = 0 ∧
    ∀ pool, pool ∈ c' ↔ pool ∈ w.st.pools ∨ pool ∈ xs
  change wp acceptEnv _ (forEach names cachePool) (gives _ _) _
  refine wp_result ?_ (wp_forEach_gives I ?_ names _ ⟨rfl, rfl, fun pool => ?_⟩)
  · rintro _ w ⟨hc, hnext, hpools⟩
    refine View.ext (congrArg (fun c : PoolMap => {pool | pool ∈ c}) hc) hnext (Set.ext fun pool => ?_)
    exact ((hpools pool).trans (or_iff_left not_mem_nil)).symm
  · rintro pool pools w ⟨rfl, hnext, hpools⟩
    apply wp_catching
    refine ⟨trivial, ?_⟩
    rintro a m c ⟨rfl, hvalid, -⟩
    obtain ⟨⟨n, rfl, -⟩, rfl⟩ := hvalid ((hpools pool).mpr (.inr mem_cons_self))
    refine ⟨rfl, hnext, fun p => (hpools p).trans ?_⟩
    rw [mem_cons, ← or_assoc]
    exact or_congr_left (or_comm.trans mem_insert.symm)
  · exact (hnames pool).symm.trans (or_iff_right notMem_empty).symm

/-! ### Runs -/

/-- The ledger tells the truth about the site. -/
structure Ledger.Fits (l : Ledger) (s : Site) : Prop where
  there : {pool | pool ∈ s.cluster} = l.there
  built : s.managers.length = l.built
  view : ∀ i m, s.managers[i]? = some m → viewOf m s.cluster = l.view i

theorem Ledger.fits_start (c : PoolMap) : (start c).Fits ⟨c, []⟩ := ⟨rfl, rfl, by simp⟩

/-- What the others know does not change with a call. -/
theorem viewOf_other {i : Nat} (hl : l.Fits s) (hm : s.managers[i]? = some m) {there : Set String}
    (hthere : {pool | pool ∈ c} = there) : viewOf m c = ⟨there, l.asked i, l.known i⟩ := by
  have hasked : m.nextPoolId = l.asked i := congrArg View.asked (hl.view i m hm)
  have hknown : {pool | pool ∈ m.pools} = l.known i := congrArg View.known (hl.view i m hm)
  rw [viewOf, hthere, hasked, hknown]

theorem SiteStep.fits (hstep : SiteStep s e s') (hl : l.Fits s) : (l.after e).Fits s' := by
  cases hstep with
  | @construct w hrun =>
    have hw : viewOf w.st w.ext = ⟨_, 0, _⟩ := wp_post (wp_initManager s.cluster) hrun
    have hthere : {pool | pool ∈ w.ext} = l.there := (congrArg View.there hw).trans hl.there
    refine ⟨hthere, by simp [hl.built, Ledger.after], fun i m hm => ?_⟩
    rw [getElem?_append, hl.built] at hm
    by_cases hi : i < l.built
    · rw [if_pos hi] at hm
      rw [viewOf_other hl hm hthere, Ledger.view, Ledger.after]
      simp only [Function.update_of_ne hi.ne]
    · rw [if_neg hi, getElem?_singleton] at hm
      obtain ⟨hi', rfl⟩ := Option.ite_some_none_eq_some.mp hm
      obtain rfl : i = l.built := by omega
      rw [hw, Ledger.view, Ledger.after]
      simp only [Function.update_self, hl.there]
  | @call i m c r w hm hrun =>
    have hw : viewOf w.st w.ext = (l.view i).after r.returned c :=
      (hl.view i m hm) ▸ wp_post (wp_run c) hrun
    have hthere : {pool | pool ∈ w.ext} = ((l.view i).after r.returned c).there := congrArg View.there hw
    refine ⟨hthere, length_set.trans hl.built, fun j m' hm' => ?_⟩
    rw [getElem?_set] at hm'
    by_cases hij : i = j
    · subst hij
      rw [if_pos rfl] at hm'
      obtain ⟨-, rfl⟩ := Option.ite_some_none_eq_some.mp hm'
      refine hw.trans (View.ext rfl ?_ ?_)
      · exact (Function.update_self i _ l.asked).symm
      · exact (Function.update_self i _ l.known).symm
    · rw [if_neg hij] at hm'
      refine (viewOf_other hl hm' hthere).trans (View.ext rfl ?_ ?_)
      · exact (Function.update_of_ne (Ne.symm hij) ..).symm
      · exact (Function.update_of_ne (Ne.symm hij) ..).symm

theorem SiteStep.fresh_iff_free (hstep : SiteStep s e s') (hl : l.Fits s) : e.Fresh ↔ l.Free e := by
  cases hstep with
  | construct _ => exact Iff.rfl
  | @call i m c r w hm hrun =>
    cases c with
    | createPoolWithUniqueName pgNum profile minSize overwrites =>
      have hfree : _ ↔ (viewOf m s.cluster).Free :=
        (wp_post (wp_createPoolWithUniqueName pgNum profile minSize overwrites) hrun).2
      rw [hl.view i m hm] at hfree
      exact hfree
    | createPool | removePool | expandPool | setPoolPgpnum => exact Iff.rfl

/-- **Unique pool names.** Every `create_pool_with_unique_name` of a run returns the name of a pool that
did not exist exactly if, when a manager is asked for its `n`-th unique name, there is no pool
`unique_pool_n` and the manager knows of none. The calls made so far tell both. -/
theorem unique_names_iff_free {c : PoolMap} {s' : Site} {events : List SiteEvent}
    (hrun : SiteRun ⟨c, []⟩ events s') :
    (∀ e ∈ events, e.Fresh) ↔ (Ledger.start c).FreeAlong events := by
  suffices hall : ∀ {s s' events} {l : Ledger}, SiteRun s events s' → l.Fits s →
      ((∀ e ∈ events, e.Fresh) ↔ l.FreeAlong events) from hall hrun (Ledger.fits_start c)
  intro s s' events l hrun
  induction hrun generalizing l with
  | nil s => simp [Ledger.FreeAlong]
  | cons hstep _ ih =>
    intro hl
    rw [forall_mem_cons, Ledger.FreeAlong, hstep.fresh_iff_free hl, ih (hstep.fits hl)]

/-- The cluster that accepts what it can, and says nothing when a pool to be created is there already. -/
def accepting : (o : MgrOp) → Manager → PoolMap → o.Ans × Manager × PoolMap
  | .osdDump, m, c => (.ok (sorted c.keys), m, c)
  | .poolGet pool _, m, c => (.ok ((c.lookup pool).getD 0), m, c)
  | .poolCreate pool n profile, m, c =>
      (.ok (), m, if pool ∈ c then c else (MgrOp.poolCreate pool n profile).change c)
  | .poolSet pool prop val, m, c =>
      (.ok (), m, if pool ∈ c then (MgrOp.poolSet pool prop val).change c else c)
  | .poolSetResult pool prop n, m, c =>
      (.ok 0, m, if pool ∈ c then (MgrOp.poolSetResult pool prop n).change c else c)
  | .rmpool pool, m, c => (.ok (), m, if pool ∈ c then c.erase pool else c)
  | .pgDump, m, c => (.ok [], m, c)
  | .status, m, c => (.ok ⟨0, none, none, none⟩, m, c)
  | .randIndex n, m, c => (⟨0, Nat.succ_pos n⟩, m, c)
  | .time, m, c => (0, m, c)
  | .sleep _, m, c => ((), m, c)

theorem acceptEnv_accepting (o : MgrOp) (m : Manager) (c : PoolMap) :
    acceptEnv o m c (accepting o m c).1 (accepting o m c).2.1 (accepting o m c).2.2 := by
  cases o with
  | osdDump =>
    refine ⟨rfl, fun _ => ⟨⟨_, rfl, fun pool => ?_⟩, rfl⟩, fun _ => rfl⟩
    rw [mem_sorted, Finmap.mem_keys]
  | poolGet pool prop =>
    refine ⟨rfl, fun h => ⟨⟨_, rfl, fun _ => ?_⟩, rfl⟩, fun _ => rfl⟩
    obtain ⟨n, hn⟩ := mem_iff.mp h
    rw [hn]
    rfl
  | poolCreate pool n profile => exact ⟨rfl, fun h => ⟨rfl, if_neg h⟩, fun h => if_pos (not_not.mp h)⟩
  | poolSet | poolSetResult | rmpool => exact ⟨rfl, fun h => ⟨rfl, if_pos h⟩, fun h => if_neg h⟩
  | _ => exact ⟨rfl, fun _ => ⟨trivial, rfl⟩, fun _ => rfl⟩

inductive SiteAction
  | construct
  | call (i : Nat) (c : PoolCall)

/-- The events of a run against that cluster, and where it ends. A call of a manager that is not there
is left out. -/
def Site.play (s : Site) : List SiteAction → List SiteEvent × Site
  | [] => ([], s)
  | .construct :: actions =>
      let w := (runWith accepting initManager ⟨⟨∅, 0⟩, s.cluster, []⟩).2
      let rest := Site.play ⟨w.ext, s.managers ++ [w.st]⟩ actions
      (.constructed :: rest.1, rest.2)
  | .call i c :: actions => match s.managers[i]? with
      | none => s.play actions
      | some m =>
          let run := runWith accepting c.run ⟨m, s.cluster, []⟩
          let rest := Site.play ⟨run.2.ext, s.managers.set i run.2.st⟩ actions
          (.called i s c run.1 :: rest.1, rest.2)

theorem exec_initManager (c : PoolMap) : Exec acceptEnv initManager ⟨⟨∅, 0⟩, c, []⟩ (.ret ())
    (runWith accepting initManager ⟨⟨∅, 0⟩, c, []⟩).2 := by
  have hexec := exec_runWith acceptEnv_accepting initManager ⟨⟨∅, 0⟩, c, []⟩
  have hpost := wp_post (wp_initManager c) hexec
  cases hr : (runWith accepting initManager ⟨⟨∅, 0⟩, c, []⟩).1 with
  | ret u =>
    rw [hr] at hexec
    exact hexec
  | exn e | cut =>
    rw [hr] at hpost
    exact hpost.elim

theorem siteRun_play (actions : List SiteAction) (s : Site) :
    SiteRun s (s.play actions).1 (s.play actions).2 := by
  induction actions generalizing s with
  | nil => exact .nil s
  | cons action actions ih =>
    cases action with
    | construct => exact .cons (.construct (exec_initManager s.cluster)) (ih _)
    | call i c =>
      rw [Site.play]
      cases hm : s.managers[i]? with
      | none => exact ih s
      | some m => exact .cons (.call hm (exec_runWith acceptEnv_accepting _ _)) (ih _)

def uniqueCall : PoolCall := .createPoolWithUniqueName 16 none none false

/-- The second manager comes when the first one's pool has been removed, and may use its name again. -/
def takeTurns : List SiteAction :=
  [.construct, .call 0 uniqueCall, .call 0 (.removePool "unique_pool_0"), .construct, .call 1 uniqueCall,
    .call 0 uniqueCall]

theorem unique_names_iff_free_takeTurns :
    let events := (Site.play ⟨∅, []⟩ takeTurns).1
    events.length = 6 ∧ (∀ e ∈ events, e.Fresh) ∧ (Ledger.start ∅).FreeAlong events := by
  have hfresh : ∀ e ∈ (Site.play ⟨∅, []⟩ takeTurns).1, e.Fresh := by decide +kernel
  exact ⟨by decide +kernel, hfresh, (unique_names_iff_free (siteRun_play takeTurns ⟨∅, []⟩)).mp hfresh⟩

/-- Both managers start counting at 0: the second is given the name of the first one's pool. -/
theorem second_manager_repeats_name :
    ∃ events s, SiteRun ⟨∅, []⟩ events s ∧ ∃ e ∈ events, ¬ e.Fresh :=
  ⟨_, _, siteRun_play [.construct, .construct, .call 0 uniqueCall, .call 1 uniqueCall] ⟨∅, []⟩,
    by decide +kernel⟩

/-! ### One manager, and nobody else uses such names -/

theorem uniquePoolName_inj {i j : Nat} (h : uniquePoolName i = uniquePoolName j) : i = j := by
  have hrepr : i.repr = j.repr := (String.append_right_inj _).mp h
  have hdigits := congrArg String.toList hrepr
  rw [Nat.toList_repr, Nat.toList_repr] at hdigits
  rw [← Nat.ofDigitChars_ten_toDigits (n := i), hdigits, Nat.ofDigitChars_ten_toDigits]

def Below (k : Nat) (pool : String) : Prop := ∀ id, pool = uniquePoolName id → id < k

theorem below_uniquePoolName (k : Nat) : Below (k + 1) (uniquePoolName k) := by
  intro id hid
  rw [← uniquePoolName_inj hid]
  exact Nat.lt_succ_self k

theorem Below.succ {k : Nat} (h : Below k pool) : Below (k + 1) pool :=
  fun id hid => Nat.lt_succ_of_lt (h id hid)

/-- The unique names that are used, or that the manager knows, are among those it has been asked for. -/
structure View.Numbered (v : View) : Prop where
  there : ∀ pool ∈ v.there, Below v.asked pool
  known : ∀ pool ∈ v.known, Below v.asked pool

def PoolCall.Plain : PoolCall → Prop
  | .createPool pool _ _ _ _ => ∀ id, pool ≠ uniquePoolName id
  | _ => True

theorem View.Numbered.create (hv : v.Numbered) {name : String} (hname : Below v.asked name) (b : Bool) :
    (v.create name b).Numbered := by
  refine ⟨fun pool hpool => ?_, fun pool hpool => ?_⟩
  · rcases hpool with h | ⟨rfl, -⟩
    · exact hv.there pool h
    · exact hname
  · rcases hpool with h | ⟨rfl, -⟩
    · exact hv.known pool h
    · exact hname

theorem View.Numbered.after {c : PoolCall} (hv : v.Numbered) (hc : c.Plain) (b : Bool) :
    (v.after b c).Numbered := by
  cases c with
  | createPool pool pgNum profile minSize overwrites => exact hv.create (fun id hid => absurd hid (hc id)) b
  | createPoolWithUniqueName pgNum profile minSize overwrites =>
    have hnext : View.Numbered { v with asked := v.asked + 1 } :=
      ⟨fun pool h => (hv.there pool h).succ, fun pool h => (hv.known pool h).succ⟩
    exact hnext.create (below_uniquePoolName v.asked) b
  | removePool pool => exact ⟨fun p h => hv.there p h.1, fun p h => hv.known p h.1⟩
  | expandPool | setPoolPgpnum => exact hv

theorem View.Numbered.free (hv : v.Numbered) : v.Free :=
  ⟨fun h => lt_irrefl _ (hv.there _ h _ rfl), fun h => lt_irrefl _ (hv.known _ h _ rfl)⟩

/-- With at most one manager on the site, its unique names are numbered below its counter. -/
structure SiteNumbered (s : Site) : Prop where
  none : s.managers = [] → ∀ pool ∈ s.cluster, Below 0 pool
  one : ∀ m ∈ s.managers, (viewOf m s.cluster).Numbered

def SiteEvent.Plain : SiteEvent → Prop
  | .called _ _ c _ => c.Plain
  | .constructed => True

theorem SiteStep.numbered (hstep : SiteStep s e s') (hone : s'.managers.length ≤ 1) (hplain : e.Plain)
    (hs : SiteNumbered s) : SiteNumbered s' ∧ e.Fresh := by
  cases hstep with
  | @construct w hrun =>
    have hnil : s.managers = [] := by
      rw [← length_eq_zero_iff]
      simpa using hone
    have hw : viewOf w.st w.ext = ⟨_, 0, _⟩ := wp_post (wp_initManager s.cluster) hrun
    refine ⟨⟨by simp, ?_⟩, trivial⟩
    rw [hnil]
    intro m hm
    rw [mem_singleton.mp hm, hw]
    exact ⟨hs.none hnil, hs.none hnil⟩
  | @call i m c r w hm hrun =>
    have hnum := hs.one m (mem_of_getElem? hm)
    have hw : viewOf w.st w.ext = _ := wp_post (wp_run c) hrun
    have hpos : s.managers ≠ [] := ne_nil_of_mem (mem_of_getElem? hm)
    -- the only manager is the one that was called
    have hset : s.managers.set i w.st = [w.st] := by
      obtain ⟨m', hm'⟩ := length_eq_one_iff.mp
        (le_antisymm (by simpa using hone) (length_pos_iff.mpr hpos))
      rw [hm'] at hm ⊢
      cases i with
      | zero => rfl
      | succ i => simp at hm
    refine ⟨⟨fun h => ?_, ?_⟩, ?_⟩
    · rw [hset] at h
      cases h
    · rw [hset]
      intro m' hm'
      rw [mem_singleton.mp hm', hw]
      exact hnum.after hplain _
    · cases c with
      | createPoolWithUniqueName pgNum profile minSize overwrites =>
        exact (wp_post (wp_createPoolWithUniqueName pgNum profile minSize overwrites) hrun).2.mpr hnum.free
      | createPool | removePool | expandPool | setPoolPgpnum => exact trivial

theorem SiteRun.length_le (hrun : SiteRun s events s') : s.managers.length ≤ s'.managers.length := by
  induction hrun with
  | nil s => exact le_rfl
  | cons hstep _ ih =>
    refine le_trans ?_ ih
    cases hstep with
    | construct | call => simp

/-- **One manager.** With a single manager, and such names neither there before nor used by a
`create_pool`, every `create_pool_with_unique_name` succeeds. -/
theorem unique_names_of_single_manager (hrun : SiteRun s events s') (hone : s'.managers.length ≤ 1)
    (hs : SiteNumbered s) (hplain : ∀ e ∈ events, e.Plain) : ∀ e ∈ events, e.Fresh := by
  induction hrun with
  | nil s => simp
  | cons hstep hrest ih =>
    rw [forall_mem_cons] at hplain ⊢
    obtain ⟨hs1, hfresh⟩ := hstep.numbered (hrest.length_le.trans hone) hplain.1 hs
    exact ⟨hfresh, ih hone hs1 hplain.2⟩

/-- Two unique pools, one of them removed, a pool with a name of its own, and a third unique pool. -/
def createAndRemove : List SiteAction :=
  [.construct, .call 0 uniqueCall, .call 0 uniqueCall, .call 0 (.removePool "unique_pool_1"),
    .call 0 (.createPool "rbd" 8 none (some 2) false), .call 0 uniqueCall]

theorem plain_play {actions : List SiteAction} (h : ∀ i c, .call i c ∈ actions → c.Plain) (s : Site) :
    ∀ e ∈ (s.play actions).1, e.Plain := by
  induction actions generalizing s with
  | nil => simp [Site.play]
  | cons action actions ih =>
    have hrest := ih fun i c hc => h i c (.tail _ hc)
    cases action with
    | construct => exact forall_mem_cons.mpr ⟨trivial, hrest _⟩
    | call i c =>
      rw [Site.play]
      cases s.managers[i]? with
      | none => exact hrest s
      | some m => exact forall_mem_cons.mpr ⟨h i c (.head _), hrest _⟩

theorem rbd_ne_uniquePoolName (id : Nat) : "rbd" ≠ uniquePoolName id := by
  intro h
  have hchars := congrArg String.toList h
  simp [uniquePoolName, String.toList_append] at hchars

theorem unique_names_of_single_manager_createAndRemove :
    let events := (Site.play ⟨∅, []⟩ createAndRemove).1
    events.length = 6 ∧ ∀ e ∈ events, e.Fresh := by
  have hrun := siteRun_play createAndRemove ⟨∅, []⟩
  have hempty : SiteNumbered ⟨∅, []⟩ := ⟨fun _ _ h => absurd h notMem_empty, by simp⟩
  have hplain : ∀ i c, .call i c ∈ createAndRemove → c.Plain := by
    intro i c hc
    obtain ⟨-, rfl⟩ | ⟨-, rfl⟩ | ⟨-, rfl⟩ | ⟨-, rfl⟩ := by simpa [createAndRemove] using hc
    · trivial
    · trivial
    · exact rbd_ne_uniquePoolName
    · trivial
  exact ⟨by decide +kernel,
    unique_names_of_single_manager hrun (by decide +kernel) hempty (plain_play hplain _)⟩

end ZbkcTasks

import Mathlib.Data.List.Perm.Basic
import Mathlib.Logic.Relation
import ZbkcTasks.FuseMount

/-! Which fuse connection a mount takes for its own: the one that is new since before it started its
daemon. Other clients of the host mount and unmount meanwhile, so an abort can hit another client. -/

namespace ZbkcTasks.FuseMount

open List Prog TextLines

/-! ### The connections of a host -/

/-- The connections by number, which of them is this mount's, and what the aborts of this mount hit. -/
structure Conns where
  ids : List Nat
  own : Option Nat
  started : Bool
  victims : List Nat
  nodup : ids.Nodup
  positive : 0 ∉ ids
  own_mem : ∀ id, own = some id → id ∈ ids

namespace Conns

def add (x : Conns) (id : Nat) (hnew : id ∉ x.ids) (hpos : id ≠ 0) : Conns :=
  { x with
    ids := id :: x.ids
    nodup := nodup_cons.mpr ⟨hnew, x.nodup⟩
    positive := not_mem_cons_of_ne_of_not_mem hpos.symm x.positive
    own_mem := fun id' hid' => .tail _ (x.own_mem id' hid') }

def drop (x : Conns) (id : Nat) (hother : x.own ≠ some id) : Conns :=
  { x with
    ids := x.ids.erase id
    nodup := x.nodup.erase id
    positive := fun hmem => x.positive (mem_of_mem_erase hmem)
    own_mem := fun id' hid' => by
      apply (mem_erase_of_ne _).mpr (x.own_mem id' hid')
      rintro rfl
      exact hother hid' }

def claim (x : Conns) (id : Nat) (hnew : id ∉ x.ids) (hpos : id ≠ 0) : Conns :=
  { x with
    ids := id :: x.ids
    own := some id
    nodup := nodup_cons.mpr ⟨hnew, x.nodup⟩
    positive := not_mem_cons_of_ne_of_not_mem hpos.symm x.positive
    own_mem := fun id' hid' => by
      cases hid'
      exact (.head _) }

def start (x : Conns) : Conns := { x with started := true }

def release (x : Conns) : Conns :=
  { x with
    ids := x.ids.filter fun id => decide (x.own ≠ some id)
    own := none
    nodup := x.nodup.filter _
    positive := fun hmem => x.positive (mem_filter.mp hmem).1
    own_mem := fun _ hnone => by cases hnone }

def abort (x : Conns) (conn : Int) : Conns :=
  if conn.toNat ∈ x.ids ∧ x.own ≠ some conn.toNat then { x with victims := conn.toNat :: x.victims } else x

end Conns

inductive Move : Conns → Conns → Prop
  | appears (x : Conns) {id : Nat} (hnew : id ∉ x.ids) (hpos : id ≠ 0) : Move x (x.add id hnew hpos)
  | disappears (x : Conns) {id : Nat} (hother : x.own ≠ some id) : Move x (x.drop id hother)
  | ours (x : Conns) {id : Nat} (hnew : id ∉ x.ids) (hpos : id ≠ 0) : x.started = true → x.own = none →
      Move x (x.claim id hnew hpos)

abbrev Drift : Conns → Conns → Prop := Relation.ReflTransGen Move

def listing (ids : List Nat) : Text := joinLines '\n' (ids.map numeral)

def Releases (x : Conns) : Except CommandError Unit → Conns → Prop
  | .ok (), y => y = x.release
  | .error (.failed _), y => y = x
  | .error (.other _), y => y = x ∨ y = x.release

def Command.Touches (x : Conns) : Command → Except CommandError Unit → Conns → Prop
  | .startDaemon, _, y => y = x.start
  | .fusermount, ans, y => Releases x ans y
  | .umountForce, ans, y => Releases x ans y
  | .abort conn, ans, y => y = x.abort conn ∨ ans ≠ .ok () ∧ y = x
  | _, _, y => y = x

def Touches (x : Conns) : (o : Op) → Ans o → Conns → Prop
  | .command c, ans, y => c.Touches x ans y
  | .lsConnections, ans, y => y = x ∧
      ∀ stdout, ans = .ok (0, stdout) → ∃ ids, ids.Perm x.ids ∧ stdout = listing ids
  | _, _, y => y = x

def connEnv : Env sig Self Conns := fun o s x ans s' x' => s' = s ∧ ∃ y, Drift x y ∧ Touches y o ans x'

/-! ### Listings -/

def asInts (ids : List Nat) : List Int := ids.map fun id : Nat => (id : Int)

variable {id : Nat} {x y : Conns}

theorem mem_asInts {ids : List Nat} : (id : Int) ∈ asInts ids ↔ id ∈ ids := by
  simp [asInts]

theorem newline_notMem_numeral (n : Nat) : '\n' ∉ numeral n := by
  intro hmem
  exact absurd (isDigit_of_mem_numeral hmem) (by decide)

theorem parseConns_listing (ids : List Nat) : parseConns (listing ids) = .ok (asInts ids) := by
  rcases eq_nil_or_concat' ids with rfl | ⟨front, last, rfl⟩
  · rfl
  have hdigit : ∀ {n : Nat} {c : Char}, c ∈ numeral n → isBlank c = false :=
    fun hc => isBlank_of_isDigit (isDigit_of_mem_numeral hc)
  let body := joinLines '\n' (front.map numeral) ++ numeral last
  have hbody : listing (front ++ [last]) = body ++ ['\n'] := by
    rw [listing, map_append, joinLines_append, append_assoc, map_singleton, joinLines_cons]
    rfl
  have hne : body ≠ [] := by
    simp [body, numeral_ne_nil]
  have hlast : ∀ d ∈ body.getLast?, isBlank d = false := by
    intro d hd
    rw [getLast?_append_of_ne_nil _ (numeral_ne_nil last)] at hd
    exact hdigit (mem_of_getLast? hd)
  have hfirst : ∀ d ∈ body.head?, isBlank d = false := by
    intro d hd
    cases front with
    | nil => exact hdigit (mem_of_head? hd)
    | cons n front =>
      have hnumeral : body.head? = (numeral n).head? := by
        show (joinLines '\n' (numeral n :: _) ++ _).head? = _
        rw [joinLines_cons, append_assoc, head?_append_of_ne_nil _ (numeral_ne_nil n)]
      rw [hnumeral] at hd
      exact hdigit (mem_of_head? hd)
  have hsplit : body.splitOn '\n' = (front ++ [last]).map numeral := by
    have hlines : ∀ l ∈ front.map numeral, '\n' ∉ l := by
      intro l hl
      obtain ⟨n, -, rfl⟩ := mem_map.mp hl
      exact newline_notMem_numeral n
    rw [splitOn_joinLines_append hlines, splitOn_of_notMem (newline_notMem_numeral last), map_append]
    rfl
  rw [parseConns, hbody, strip_append_blank hfirst hlast hne rfl, if_neg hne, hsplit, mapM_map,
    asInts]
  exact mapM_ok (f := pyInt ∘ numeral) fun n _ => pyInt_numeral n

/-! ### What others cannot do -/

theorem Move.own (h : Move x y) (hown : x.own = some id) : y.own = some id := by
  cases h with
  | appears | disappears => exact hown
  | ours _ _ _ hnone =>
    rw [hown] at hnone
    cases hnone

theorem Move.victims (h : Move x y) : y.victims = x.victims := by
  cases h <;> rfl

theorem own_of_drift (h : Drift x y) (hown : x.own = some id) : y.own = some id := by
  induction h with
  | refl => exact hown
  | tail _ hmove ih => exact hmove.own ih

theorem victims_of_drift (h : Drift x y) : y.victims = x.victims := by
  induction h with
  | refl => rfl
  | tail _ hmove ih => exact hmove.victims.trans ih

theorem Releases.victims {ans : Except CommandError Unit} (h : Releases x ans y) :
    y.victims = x.victims := by
  match ans, h with
  | .ok (), h => rw [show y = x.release from h]; rfl
  | .error (.failed _), h => rw [show y = x from h]
  | .error (.other _), h =>
      rcases h with rfl | rfl
      · rfl
      · rfl

variable {o : Op} {pre : List Int} {conn : Nat}

theorem Touches.victims {ans : Ans o} (h : Touches x o ans y) (ho : ∀ conn, o ≠ .command (.abort conn)) :
    y.victims = x.victims := by
  cases o with
  | command c =>
    cases c with
    | abort conn => exact absurd rfl (ho conn)
    | fusermount | umountForce => exact Releases.victims h
    | startDaemon => rw [show y = x.start from h]; rfl
    | mkdir | mountFusectl | waitDaemon | removeAll | waitBackground => rw [show y = x from h]
  | lsConnections => rw [show y = x from h.1]
  | finished | stat | closeStdin | closeBackground | sleep => rw [show y = x from h]

theorem Conns.abort_own {x : Conns} (hown : x.own = some id) : x.abort id = x := by
  rw [abort, if_neg]
  rintro ⟨-, hother⟩
  exact hother hown

/-! ### Mounting -/

def listed : (o : Op) → Ans o → Option (List Int)
  | .lsConnections, .ok out => (connsOf out).toOption
  | _, _ => none

def listings (log : List (Event sig Self Conns)) : List (List Int) :=
  log.filterMap fun e => listed e.op e.ans

def Shows (conns : List Int) (x : Conns) : Prop := conns.Perm (asInts x.ids)

abbrev ConnW := World sig Self Conns

variable {w : ConnW}

section Mounting

abbrev brings {α : Type} (p : M α) (P : α → ConnW → Prop) (w : ConnW) : Prop :=
  wp connEnv (fun _ _ _ => True) p (gives P fun _ => True) w

theorem listings_push (ho : o ≠ .lsConnections) (ans : Ans o) (s : Self) (x : Conns) :
    listings (w.push o ans s x).log = listings w.log := by
  rw [listings, World.push_log, filterMap_cons_none]
  · rfl
  · cases o with
    | lsConnections => exact absurd rfl ho
    | _ => rfl

theorem brings_run (c : Command) :
    brings (run c) (fun _ w' => w'.st = w.st ∧ listings w'.log = listings w.log) w := by
  refine ⟨trivial, fun ans s x hE => ?_⟩
  have hlist := listings_push (w := w) (o := .command c) (by simp) ans s x
  cases ans with
  | ok _ => exact ⟨hE.1, hlist⟩
  | error e => exact trivial

theorem brings_listConnections :
    brings listConnections (fun conns w' => w'.st = w.st ∧ listings w'.log = conns :: listings w.log ∧
      (conns = [] ∨ Shows conns w'.ext)) w := by
  refine wp_seq (P := fun _ w' => w'.st = w.st ∧ listings w'.log = listings w.log) ?_ ?_
  · refine ⟨trivial, fun ans s x hE => ?_⟩
    have hlist := listings_push (w := w) (o := .command .mountFusectl) (by simp) ans s x
    show brings (ofCommand (ignoreStatus ans)) _ _
    cases ignoreStatus ans with
    | ok _ => exact ⟨hE.1, hlist⟩
    | error e => exact trivial
  · rintro _ w1 ⟨hst1, hlist1⟩
    refine ⟨trivial, fun ans s x hE => ?_⟩
    obtain ⟨rfl, y, -, rfl, hprints⟩ := hE
    cases ans with
    | error e => exact trivial
    | ok out =>
      obtain ⟨status, stdout⟩ := out
      show brings (orThrow (connsOf (status, stdout))) _ _
      cases hconns : connsOf (status, stdout) with
      | error e => exact trivial
      | ok conns =>
        refine ⟨hst1, ?_, ?_⟩
        · show List.filterMap _ (_ :: _) = _
          rw [filterMap_cons_some (b := conns)]
          · rw [← hlist1]
            rfl
          · show (connsOf (status, stdout)).toOption = _
            rw [hconns]
            rfl
        · rw [connsOf] at hconns
          split at hconns
          next =>
            cases hconns
            exact .inl rfl
          next hzero =>
            obtain rfl := not_not.mp hzero
            obtain ⟨ids, hperm, rfl⟩ := hprints stdout rfl
            rw [parseConns_listing] at hconns
            cases hconns
            exact .inr (hperm.map _)

def First (pre : List Int) (w : ConnW) : Prop := (listings w.log).getLast? = some pre

variable {w' : ConnW} {post : List Int}

theorem First.of_listings (h : First pre w) (hlist : listings w'.log = listings w.log) : First pre w' := by
  rw [First, hlist]
  exact h

theorem First.of_cons {conns : List Int} (h : First pre w)
    (hlist : listings w'.log = conns :: listings w.log) : First pre w' := by
  rw [First, hlist, getLast?_cons, show (listings w.log).getLast? = some pre from h]
  rfl

/-- What is known when a listing was made and the first one was `pre`. -/
structure AtListing (pre conns : List Int) (w : ConnW) : Prop where
  first : First pre w
  shows_or : conns = [] ∨ Shows conns w.ext

theorem brings_listAgain (hw : First pre w) :
    brings listConnections (fun conns w' => AtListing pre conns w') w := by
  apply wp_result _ brings_listConnections
  rintro conns w' ⟨-, hlist, hshows⟩
  exact ⟨hw.of_cons hlist, hshows⟩

theorem brings_pause (hw : First pre w) : brings pause (fun _ w' => First pre w') w := by
  refine ⟨trivial, fun finished s x _ => ?_⟩
  have hw1 : First pre (w.push .finished finished s x) := hw.of_listings (listings_push (by simp) _ _ _)
  have hsleep : ∀ w' : ConnW, First pre w' →
      brings (.op (.sleep 1) .ret : M Unit) (fun _ w'' => First pre w'') w' :=
    fun w' hw' => ⟨trivial, fun _ _ _ _ => hw'.of_listings (listings_push (by simp) _ _ _)⟩
  cases finished with
  | false => exact hsleep _ hw1
  | true =>
    apply wp_seq (brings_run .waitDaemon)
    rintro _ w2 ⟨-, hlist⟩
    exact hsleep w2 (hw1.of_listings hlist)

/-- **The wait.** It ends with a listing that is longer than the first one. -/
theorem brings_awaitConns (seconds : Int) (left : Nat) (hw : AtListing pre post w) :
    brings (awaitConns seconds pre left post)
      (fun conns w' => AtListing pre conns w' ∧ pre.length < conns.length) w := by
  -- by induction on the listings that are left until the timeout
  induction left generalizing w post with
  | zero =>
    rw [awaitConns]
    split
    next hlonger => exact ⟨hw, hlonger⟩
    next =>
      apply wp_seq (brings_pause hw.first)
      exact fun _ _ _ => trivial
  | succ left ih =>
    rw [awaitConns]
    split
    next hlonger => exact ⟨hw, hlonger⟩
    next =>
      apply wp_seq (brings_pause hw.first)
      intro _ w1 hw1
      apply wp_seq (brings_listAgain hw1)
      intro conns w2 hw2
      exact ih hw2

theorem newConn_ok {conn : Int} (h : newConn pre post = .ok conn) (c : Int) :
    c ∈ post ∧ c ∉ pre ↔ c = conn := by
  have hmem : c ∈ (post.filter fun id => !pre.contains id).dedup ↔ c ∈ post ∧ c ∉ pre := by
    simp [mem_dedup, mem_filter]
  rw [newConn] at h
  rw [← hmem]
  split at h
  next => cases h
  next only honly =>
    cases h
    rw [honly, mem_singleton]
  next => cases h

/-- What is on record is there now, was not at the first listing, and is the only such connection. -/
structure Recorded (pre : List Int) (conn : Nat) (w : ConnW) : Prop where
  first : First pre w
  fuseConn : w.st.fuseConn = some (conn : Int)
  mem : conn ∈ w.ext.ids
  unique : ∀ id ∈ w.ext.ids, (id : Int) ∉ pre ↔ id = conn

/-- **Mounting.** If `mount` returns, it has one connection on record, the only one that the last listing
has and the first has not. -/
theorem brings_mount (config : ClientConfig) (hw : listings w.log = []) :
    brings (mount config) (fun _ w' => ∃ pre conn, Recorded pre conn w') w := by
  apply wp_seq (brings_run .mkdir)
  rintro _ w1 ⟨-, hlist1⟩
  apply wp_seq brings_listConnections
  rintro pre w2 ⟨-, hlist2, -⟩
  have hfirst2 : First pre w2 := by
    rw [First, hlist2, hlist1, hw, getLast?_singleton]
  apply wp_seq (brings_run .startDaemon)
  rintro _ w3 ⟨-, hlist3⟩
  let w4 : ConnW := { w3 with st := { w3.st with fuseDaemon := true } }
  have hfirst4 : First pre w4 := hfirst2.of_listings hlist3
  apply wp_seq (show brings recordDaemon (fun _ w' => w' = w4) w3 from rfl)
  rintro _ _ rfl
  have hsleep : brings (onlyIf (0 < config.mountWait) (.op (.sleep config.mountWait) .ret))
      (fun _ w' => First pre w') w4 := by
    rw [onlyIf]
    split
    next => exact ⟨trivial, fun _ _ _ _ => hfirst4.of_listings (listings_push (by simp) _ _ _)⟩
    next => exact hfirst4
  apply wp_seq hsleep
  intro _ w5 hfirst5
  apply wp_seq (wp_seq (brings_listAgain hfirst5) fun _ _ => brings_awaitConns _ _)
  rintro post w6 ⟨hlisting, hlonger⟩
  have hshows : Shows post w6.ext := by
    rcases hlisting.shows_or with rfl | hshows
    · exact absurd hlonger (Nat.not_lt_zero _)
    · exact hshows
  cases hnew : newConn pre post with
  | error e => exact trivial
  | ok c =>
    have hmem : ∀ id : Nat, (id : Int) ∈ post ↔ id ∈ w6.ext.ids :=
      fun id => hshows.mem_iff.trans mem_asInts
    obtain ⟨hpost, hpre⟩ := (newConn_ok hnew c).mpr rfl
    obtain ⟨conn, hconn, rfl⟩ := mem_map.mp (hshows.mem_iff.mp hpost)
    refine ⟨pre, conn, hlisting.first, rfl, hconn, fun id hid => ?_⟩
    have hunique := newConn_ok hnew (id : Int)
    rw [hmem, and_iff_right hid, Int.natCast_inj] at hunique
    exact hunique

end Mounting

/-! ### Unmounting -/

section Unmounting

abbrev harmless {α : Type} (victims : List Nat) (p : M α) : Prop :=
  Always connEnv (fun _ _ _ => True) (fun w => w.ext.victims = victims) p

variable {victims : List Nat}

theorem harmless_op {α : Type} {k : Ans o → M α} (ho : ∀ conn, o ≠ .command (.abort conn))
    (hk : ∀ ans, harmless victims (k ans)) : harmless victims (.op o k) := by
  refine .op (fun w hw => ⟨trivial, fun ans s x hE => ?_⟩) hk
  obtain ⟨-, y, hdrift, htouches⟩ := hE
  show x.victims = victims
  rw [htouches.victims ho, victims_of_drift hdrift, hw]

theorem harmless_isMounted : harmless victims isMounted := by
  apply harmless_op (by simp)
  intro ans
  cases ans with
  | printed | failed => exact .ret _
  | other msg => exact .throw _

theorem harmless_umountForce :
    harmless victims (exceptFailed (run .umountForce) fun e => do
      let mounted ← isMounted
      if mounted = true then .throw e else .ret ()) := by
  apply Always.catching
  · apply harmless_op (by simp)
    intro ans
    cases ans with
    | ok _ => exact .ret _
    | error e => exact .throw _
  · intro e
    split
    next => exact harmless_isMounted.bind fun _ => .ite (.throw _) (.ret ())
    next => exact .throw _

theorem harmless_lastLook : harmless victims
      (isMounted >>= fun mounted => pyAssert (mounted = false) "" >>= fun _ => forgetConn) := by
  apply harmless_isMounted.bind
  intro mounted
  apply Always.bind (.ite (.ret ()) (.throw _))
  exact fun _ => .modify fun _ hw => hw

theorem victims_abortConn (hconn : w.st.fuseConn = some (conn : Int)) (hown : w.ext.own = some conn) :
    wp connEnv (fun _ _ _ => True) abortConn (fun _ w' => w'.ext.victims = w.ext.victims) w := by
  show wp connEnv _ (w.st.fuseConn.elim (.ret ()) fun conn => onlyIf (conn ≠ 0) (run (.abort conn) >>=
    fun _ => forgetConn)) _ w
  rw [hconn, Option.elim_some]
  rw [onlyIf]
  split
  next =>
    refine ⟨trivial, fun ans s x hE => ?_⟩
    obtain ⟨-, y, hdrift, htouches⟩ := hE
    have hsame : x = y := by
      rcases htouches with hsame | ⟨-, hsame⟩
      · rw [hsame, Conns.abort_own (own_of_drift hdrift hown)]
      · exact hsame
    have hvictims : x.victims = w.ext.victims := by rw [hsame, victims_of_drift hdrift]
    cases ans with
    | ok | error => exact hvictims
  next => exact rfl

theorem victims_umount (hconn : w.st.fuseConn = some (conn : Int)) (hown : w.ext.own = some conn) :
    wp connEnv (fun _ _ _ => True) umount (fun _ w' => w'.ext.victims = w.ext.victims) w := by
  have hattempts : wp connEnv (fun _ _ _ => True)
      (exceptFailed (run .fusermount) fun _ => forceUmount)
      (fun _ w' => w'.ext.victims = w.ext.victims) w := by
    refine wp_catching ⟨trivial, fun ans s x hE => ?_⟩
    obtain ⟨rfl, y, hdrift, htouches⟩ := hE
    have hvictims : x.victims = w.ext.victims := by
      rw [Releases.victims htouches, victims_of_drift hdrift]
    match ans with
    | .ok () => exact hvictims
    | .error (.other msg) => exact hvictims
    | .error (.failed n) =>
        -- the failure has left the connection, so it is our own that is aborted
        have hown1 : x.own = some conn := by
          rw [show x = y from htouches]
          exact own_of_drift hdrift hown
        rw [← hvictims]
        refine wp_bind.mpr (wp_mono ?_ (victims_abortConn hconn hown1))
        rintro (_ | e | _) w' h'
        · exact harmless_umountForce w' h'
        · exact h'
        · exact h'
  refine wp_bind.mpr (wp_mono ?_ hattempts)
  rintro (_ | e | _) w' h'
  · exact harmless_lastLook w' h'
  · exact h'
  · exact h'

end Unmounting

/-- A host where `fusermount` fails, the rest works, and others keep still. -/
def hostile : (o : Op) → Self → Conns → Ans o × Self × Conns
  | .command .fusermount, s, x => (.error (.failed 1), s, x)
  | .command .umountForce, s, x => (.ok (), s, x.release)
  | .command (.abort conn), s, x => (.ok (), s, x.abort conn)
  | .command .startDaemon, s, x => (.ok (), s, x.start)
  | .command _, s, x => (.ok (), s, x)
  | .lsConnections, s, x => (.ok (1, []), s, x)
  | .finished, s, x => (false, s, x)
  | .stat, s, x => (.printed [], s, x)
  | .closeStdin, s, x => ((), s, x)
  | .closeBackground _, s, x => ((), s, x)
  | .sleep _, s, x => ((), s, x)

theorem connEnv_hostile (o : Op) (s : Self) (x : Conns) :
    connEnv o s x (hostile o s x).1 (hostile o s x).2.1 (hostile o s x).2.2 := by
  cases o with
  | command c =>
    cases c with
    | abort conn => exact ⟨rfl, x, .refl, .inl rfl⟩
    | _ => exact ⟨rfl, x, .refl, rfl⟩
  | lsConnections => exact ⟨rfl, x, .refl, rfl, fun stdout heq => by cases heq⟩
  | _ => exact ⟨rfl, x, .refl, rfl⟩

theorem victim_of_umount (hconn : w.st.fuseConn = some (conn : Int)) (hmem : conn ∈ w.ext.ids)
    (hother : w.ext.own ≠ some conn) :
    ∃ r w', Exec connEnv umount w r w' ∧ w'.ext.victims ≠ w.ext.victims := by
  refine ⟨_, _, exec_runWith connEnv_hostile umount w, ?_⟩
  have hne : (conn : Int) ≠ 0 := by
    intro hzero
    exact w.ext.positive (by rwa [← Int.natCast_eq_zero.mp hzero])
  have hvictims : (runWith hostile umount w).2.ext.victims = conn :: w.ext.victims := by
    obtain ⟨⟨daemon, fuseConn, procs⟩, x, log⟩ := w
    obtain rfl : fuseConn = some (conn : Int) := hconn
    show (runWith hostile ((onlyIf ((conn : Int) ≠ 0) (run (.abort conn) >>= fun _ => forgetConn) >>= _) >>=
      _) _).2.ext.victims = _
    rw [onlyIf, if_pos hne]
    show (x.abort conn).victims = conn :: x.victims
    rw [Conns.abort, Int.toNat_natCast, if_pos ⟨hmem, hother⟩]
  rw [hvictims]
  exact cons_ne_self _ _

/-- The mount's own connection is there, and its number was not at the first listing. -/
def SeenNew (pre : List Int) (x : Conns) : Prop := ∃ id, x.own = some id ∧ (id : Int) ∉ pre

theorem Recorded.own_iff (h : Recorded pre conn w) : w.ext.own = some conn ↔ SeenNew pre w.ext := by
  constructor
  · intro hown
    exact ⟨conn, hown, (h.unique conn h.mem).mpr rfl⟩
  · rintro ⟨id, hown, hnew⟩
    rw [hown, (h.unique id (w.ext.own_mem id hown)).mp hnew]

theorem Recorded.victims_iff (h : Recorded pre conn w) :
    (∀ r w', Exec connEnv umount w r w' → w'.ext.victims = w.ext.victims) ↔ SeenNew pre w.ext := by
  rw [← h.own_iff]
  constructor
  · intro hall
    by_contra hother
    obtain ⟨r, w', hrun, hvictims⟩ := victim_of_umount h.fuseConn h.mem hother
    exact hvictims (hall r w' hrun)
  · intro hown
    exact wp_iff_exec.mp (victims_umount h.fuseConn hown)

/-- **The connection on record.** When `mount` returns, the connection on record is its own exactly if that
is in the last listing, under a new number; and exactly then can `umount` abort no other one. -/
theorem mount_records_own_iff (config : ClientConfig) {s : Self} {x : Conns} {w : ConnW}
    (hrun : Exec connEnv (mount config) ⟨s, x, []⟩ (.ret ()) w) :
    ∃ (pre : List Int) (conn : Nat), First pre w ∧ w.st.fuseConn = some (conn : Int) ∧
      (w.ext.own = some conn ↔ SeenNew pre w.ext) ∧
      ((∀ r w', Exec connEnv umount w r w' → w'.ext.victims = w.ext.victims) ↔ SeenNew pre w.ext) := by
  have hbrings : brings (mount config) (fun _ w' => ∃ pre conn, Recorded pre conn w') ⟨s, x, []⟩ :=
    brings_mount config rfl
  obtain ⟨pre, conn, hrecorded⟩ := wp_post hbrings hrun
  exact ⟨pre, conn, hrecorded.first, hrecorded.fuseConn, hrecorded.own_iff, hrecorded.victims_iff⟩

/-! ### Two clients -/

def idle : Conns where
  ids := []
  own := none
  started := false
  victims := []
  nodup := nodup_nil
  positive := not_mem_nil
  own_mem := fun _ hnone => by cases hnone

def joined (x : Conns) : Conns :=
  if h : 41 ∉ x.ids then x.add 41 h (by decide) else x

def claimed (x : Conns) : Conns :=
  if h : x.own = none ∧ x.started = true ∧ 42 ∉ x.ids then x.claim 42 h.2.2 (by decide) else x

theorem drift_joined (x : Conns) : Drift x (joined x) := by
  rw [joined]
  split
  next h => exact .single (.appears x h _)
  next => exact .refl

theorem drift_claimed (x : Conns) : Drift x (claimed x) := by
  rw [claimed]
  split
  next h => exact .single (.ours x h.2.2 _ h.2.1 h.1)
  next => exact .refl

/-- A host where `fusermount` fails. The first connection after the daemon was started is this mount's if
`early`, and the other client's if not. -/
def shared (early : Bool) : (o : Op) → Self → Conns → Ans o × Self × Conns
  | .lsConnections, s, x =>
      let y := if x.started = true then (if early = true then claimed x else joined x) else x
      (.ok (0, listing y.ids), s, y)
  | .command .fusermount, s, x => (.error (.failed 1), s, claimed x)
  | o, s, x => hostile o s x

theorem connEnv_shared (early : Bool) (o : Op) (s : Self) (x : Conns) :
    connEnv o s x (shared early o s x).1 (shared early o s x).2.1 (shared early o s x).2.2 := by
  cases o with
  | lsConnections =>
    refine ⟨rfl, _, ?_, rfl, fun stdout heq => ⟨_, .refl _, ?_⟩⟩
    · show Drift x (if x.started = true then (if early = true then claimed x else joined x) else x)
      split
      next =>
        split
        next => exact drift_claimed x
        next => exact drift_joined x
      next => exact .refl
    · cases heq
      rfl
  | command c =>
    cases c with
    | fusermount => exact ⟨rfl, claimed x, drift_claimed x, rfl⟩
    | _ => exact connEnv_hostile _ s x
  | _ => exact connEnv_hostile _ s x

def newMount : Self := ⟨false, none, []⟩

def defaults : ClientConfig := ⟨0, 30⟩

theorem mount_records_own_first : ∃ (w : ConnW) (pre : List Int) (conn : Nat),
      Exec connEnv (mount defaults) ⟨newMount, idle, []⟩ (.ret ()) w ∧ First pre w ∧
      w.st.fuseConn = some (conn : Int) ∧ (w.ext.own = some conn ↔ SeenNew pre w.ext) ∧
      ((∀ r w', Exec connEnv umount w r w' → w'.ext.victims = w.ext.victims) ↔ SeenNew pre w.ext) := by
  have hrun := exec_runWith (connEnv_shared true) (mount defaults) ⟨newMount, idle, []⟩
  obtain ⟨pre, conn, hrecorded⟩ := mount_records_own_iff defaults hrun
  exact ⟨_, pre, conn, hrun, hrecorded⟩

/-- The other client is first: its connection is recorded, and aborted while our own is there. -/
theorem mount_records_other :
    ∃ w v, Exec connEnv (mount defaults) ⟨newMount, idle, []⟩ (.ret ()) w ∧ w.st.fuseConn = some 41 ∧
      w.ext.own = none ∧ Exec connEnv umount w (.ret ()) v ∧ v.ext.victims = [41] := by
  have hrun := exec_runWith (connEnv_shared false) (mount defaults) ⟨newMount, idle, []⟩
  have hrun' := exec_runWith (connEnv_shared false) umount
    (runWith (shared false) (mount defaults) ⟨newMount, idle, []⟩).2
  exact ⟨_, _, hrun, rfl, rfl, hrun', rfl⟩

end ZbkcTasks.FuseMount

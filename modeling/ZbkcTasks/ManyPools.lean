import Mathlib.Data.Finset.Union
import Mathlib.Data.List.AList
import ZbkcTasks.PyBase

/-! `tasks/manypools.py`. The clients take turns in creating pools, and then the task waits. The processes
are kept under their hosts, so a client hides the process of an earlier one on its host. -/

namespace ZbkcTasks.ManyPools

open AList List

variable {Host : Type} [DecidableEq Host]

/-- A process that creates a pool, on a host and under a role. -/
structure Creation (Host : Type) where
  host : Host
  role : String
  poolnum : Int

def Creation.args (c : Creation Host) : List String :=
  let pool := "pool" ++ toString c.poolnum
  ["rados", "--name", c.role, "mkpool", pool, "-1", "&&",
    "rados", "--name", c.role, "--pool", pool, "bench", "0", "write", "-t", "16", "--block-size", "1"]

/-- The state of the task; a process is its number in `started`. -/
structure Run (Host : Type) where
  remainingPools : Int
  poolprocs : AList fun _ : Host => Nat := ∅
  started : List (Creation Host) := []
  waited : Finset Nat := ∅

/-- A client's turn: nothing is started once the count is below zero. -/
def create (r : Run Host) (client : Host × String) : Run Host :=
  if r.remainingPools - 1 < 0 then { r with remainingPools := r.remainingPools - 1 }
  else
    { r with
      remainingPools := r.remainingPools - 1
      started := r.started ++ [⟨client.1, client.2, r.remainingPools⟩]
      poolprocs := r.poolprocs.insert client.1 r.started.length }

def Run.procs (r : Run Host) : List Nat := r.poolprocs.entries.map fun e => e.2

/-- `run.wait(poolprocs.itervalues())`, which raises what a process exits with. -/
def wait (exits : Nat → Except CommandError Unit) (r : Run Host) : Except CommandError (Run Host) :=
  (r.procs.forM exits).map fun _ => { r with waited := r.waited ∪ r.procs.toFinset }

/-- The outer loop, for at most `fuel` rounds. -/
def creating (exits : Nat → Except CommandError Unit) (creatorRemotes : List (Host × String)) :
    Nat → Run Host → Option (Except CommandError (Run Host))
  | 0, _ => none
  | fuel + 1, r =>
      if 0 < r.remainingPools then
        match wait exits (creatorRemotes.foldl create r) with
        | .error e => some (.error e)
        | .ok r => creating exits creatorRemotes fuel r
      else some (.ok r)

def task (exits : Nat → Except CommandError Unit) (creatorRemotes : List (Host × String)) (config : Int)
    (fuel : Nat) : Option (Except CommandError (Run Host)) :=
  creating exits creatorRemotes fuel { remainingPools := config }

section Numbering

abbrev Table (Host : Type) := AList fun _ : Host => Nat

/-- The process is in the table. -/
def Holds (d : Table Host) (v : Nat) : Prop := ∃ host, d.lookup host = some v

/-- The hosts are entered with the numbers from `b` on. -/
def number (d : Table Host) (b : Nat) : List Host → Table Host
  | [] => d
  | host :: hosts => number (d.insert host b) (b + 1) hosts

variable {d : Table Host} {b v : Nat} {host : Host} {hosts : List Host}

/-- A host has the number of its last entry. -/
theorem lookup_number (d : Table Host) (b : Nat) (hosts : List Host) (host : Host) :
    if host ∈ hosts then ∃ v, (number d b hosts).lookup host = some v ∧ b ≤ v ∧ v < b + hosts.length
    else (number d b hosts).lookup host = d.lookup host := by
  induction hosts generalizing d b with
  | nil => rfl
  | cons first hosts ih =>
    have hrest := ih (d.insert first b) (b + 1)
    by_cases hmem : host ∈ hosts
    · rw [if_pos hmem] at hrest
      rw [if_pos (.tail _ hmem)]
      obtain ⟨v, hv, hle, hlt⟩ := hrest
      exact ⟨v, hv, by omega, by rw [length_cons]; omega⟩
    · rw [if_neg hmem] at hrest
      by_cases hsame : host = first
      · rw [if_pos (by simp [hsame])]
        refine ⟨b, hrest.trans ?_, le_rfl, by simp⟩
        rw [hsame, lookup_insert]
      · rw [if_neg (by simp [hsame, hmem])]
        exact hrest.trans (lookup_insert_ne hsame)

/-- An earlier process stays only if its host is not entered again. -/
theorem holds_number_of_lt (hv : v < b) :
    Holds (number d b hosts) v ↔ ∃ host, host ∉ hosts ∧ d.lookup host = some v := by
  refine exists_congr fun host => ?_
  have hlookup := lookup_number d b hosts host
  by_cases hmem : host ∈ hosts
  · rw [if_pos hmem] at hlookup
    obtain ⟨u, hu, hle, -⟩ := hlookup
    rw [hu, Option.some.injEq]
    exact iff_of_false (by omega) fun h => h.1 hmem
  · rw [if_neg hmem] at hlookup
    rw [hlookup, and_iff_right hmem]

theorem lt_of_holds_number (hd : ∀ v, Holds d v → v < b) (h : Holds (number d b hosts) v) :
    v < b + hosts.length := by
  by_contra hle
  obtain ⟨host, hhost⟩ := h
  have hlookup := lookup_number d b hosts host
  split at hlookup
  · obtain ⟨u, hu, -, hlt⟩ := hlookup
    rw [hhost, Option.some.injEq] at hu
    omega
  · have := hd v ⟨host, hlookup.symm.trans hhost⟩
    omega

/-- All the new numbers are in the table if no host was entered twice. -/
theorem holds_number_iff (hd : ∀ v, Holds d v → v < b) :
    (∀ v, b ≤ v → v < b + hosts.length → Holds (number d b hosts) v) ↔ hosts.Nodup := by
  induction hosts generalizing d b with
  | nil => exact iff_of_true (fun v hle hlt => absurd hlt (by simpa using hle)) nodup_nil
  | cons first hosts ih =>
    have hinsert : ∀ {host v}, (d.insert first b).lookup host = some v →
        host = first ∧ v = b ∨ d.lookup host = some v := by
      intro host v hv
      by_cases hsame : host = first
      · rw [hsame, lookup_insert] at hv
        exact .inl ⟨hsame, (Option.some.inj hv).symm⟩
      · rw [lookup_insert_ne hsame] at hv
        exact .inr hv
    have hd' : ∀ v, Holds (d.insert first b) v → v < b + 1 := by
      rintro v ⟨host, hv⟩
      rcases hinsert hv with ⟨-, rfl⟩ | hold
      · exact Nat.lt_succ_self _
      · exact (hd v ⟨host, hold⟩).trans (Nat.lt_succ_self _)
    have hfirst : Holds (number (d.insert first b) (b + 1) hosts) b ↔ first ∉ hosts := by
      rw [holds_number_of_lt (Nat.lt_succ_self b)]
      constructor
      · rintro ⟨host, hmem, hv⟩
        rcases hinsert hv with ⟨rfl, -⟩ | hold
        · exact hmem
        · exact absurd rfl (hd b ⟨host, hold⟩).ne
      · exact fun hmem => ⟨first, hmem, lookup_insert _⟩
    rw [nodup_cons, ← hfirst, ← ih hd', length_cons, number]
    constructor
    · exact fun hall => ⟨hall b le_rfl (by omega), fun v hle hlt => hall v (by omega) (by omega)⟩
    · rintro ⟨hb, hall⟩ v hle hlt
      rcases Nat.eq_or_lt_of_le hle with rfl | hgt
      · exact hb
      · exact hall v hgt (by omega)

end Numbering

/-! ### Every exit is a success -/

def success (_ : Nat) : Except CommandError Unit := .ok ()

variable {clients : List (Host × String)} {r run : Run Host} {fuel n p : Nat}

/-- The clients that still get a pool in a round. -/
def served (clients : List (Host × String)) (r : Run Host) : List (Host × String) :=
  clients.take r.remainingPools.toNat

/-- A round in which all processes succeed. -/
def round (clients : List (Host × String)) (r : Run Host) : Run Host :=
  let poolprocs := number r.poolprocs r.started.length ((served clients r).map Prod.fst)
  { remainingPools := r.remainingPools - clients.length
    poolprocs
    started := r.started ++ (served clients r).mapIdx fun i client =>
      ⟨client.1, client.2, r.remainingPools - i⟩
    waited := r.waited ∪ (poolprocs.entries.map fun e => e.2).toFinset }

/-- The loop over the clients is the numbering of their hosts. -/
theorem foldl_create (clients : List (Host × String)) (r : Run Host) :
    clients.foldl create r = { round clients r with waited := r.waited } := by
  induction clients generalizing r with
  | nil => simp [round, served, number]
  | cons client clients ih =>
    rw [foldl_cons, ih]
    by_cases hpos : 0 < r.remainingPools
    · obtain ⟨k, hk⟩ : ∃ k : Nat, r.remainingPools = k + 1 := ⟨(r.remainingPools - 1).toNat, by omega⟩
      have htake : (k + 1 : Int).toNat = k + 1 := by omega
      rw [create, if_neg (by omega)]
      simp [round, served, hk, htake, number, mapIdx_cons]
    · have hnone : r.remainingPools.toNat = 0 := by omega
      have hnone' : (r.remainingPools - 1).toNat = 0 := by omega
      rw [create, if_pos (by omega)]
      simp [round, served, hnone, hnone', number]
      omega

theorem creating_succ (h : 0 < r.remainingPools) :
    creating success clients (fuel + 1) r = creating success clients fuel (round clients r) := by
  have hall : ∀ procs : List Nat, procs.forM success = .ok () := by
    intro procs
    induction procs with
    | nil => rfl
    | cons q procs ih => exact ih
  rw [creating, if_pos h, wait, hall, foldl_create]
  rfl

theorem length_round (clients : List (Host × String)) (r : Run Host) :
    (round clients r).started.length = r.started.length + ((served clients r).map Prod.fst).length := by
  simp [round]

theorem mem_waited_round :
    p ∈ (round clients r).waited ↔ p ∈ r.waited ∨ Holds (round clients r).poolprocs p := by
  simp only [round, Finset.mem_union, mem_toFinset, mem_map, Holds]
  refine or_congr_right ⟨?_, ?_⟩
  · rintro ⟨⟨host, _⟩, he, rfl⟩
    exact ⟨host, mem_lookup_iff.mpr he⟩
  · rintro ⟨host, h⟩
    exact ⟨⟨host, p⟩, mem_lookup_iff.mp h, rfl⟩

/-- What is known whenever the loop is tested: the pools from `n` down have been started, and the table has
processes that were. -/
structure Head (n : Nat) (r : Run Host) : Prop where
  nums : r.started.map (fun c => c.poolnum) = (List.range r.started.length).map fun i : Nat => (n : Int) - i
  count : r.started.length + max 0 r.remainingPools = n
  entries : ∀ p, Holds r.poolprocs p → p < r.started.length
  below : ∀ p ∈ r.waited, p < r.started.length

theorem Head.round (h : Head n r) (hpos : 0 < r.remainingPools) : Head n (round clients r) := by
  have hcount := h.count
  have hentries : ∀ p, Holds (ManyPools.round clients r).poolprocs p →
      p < (ManyPools.round clients r).started.length := by
    rw [length_round]
    exact fun p => lt_of_holds_number h.entries
  refine ⟨?_, ?_, hentries, fun p hp => (mem_waited_round.mp hp).elim (fun hw => ?_) (hentries p)⟩
  · rw [length_round, range_add, map_append, ← h.nums, ManyPools.round, map_append]
    refine congrArg _ (ext_getElem (by simp) fun i _ _ => ?_)
    simp only [getElem_map, getElem_mapIdx, getElem_range]
    omega
  · rw [length_round]
    simp only [ManyPools.round, served, length_map, length_take]
    omega
  · rw [length_round]
    exact Nat.lt_add_right _ (h.below p hw)

/-- Every process that was started has been waited for. -/
def AllWaited (r : Run Host) : Prop := ∀ p < r.started.length, p ∈ r.waited

/-- **One round** waits for all it has started if their hosts differ. -/
theorem allWaited_round_iff (clients : List (Host × String)) (h : Head n r) (hall : AllWaited r) :
    AllWaited (round clients r) ↔ ((served clients r).map Prod.fst).Nodup := by
  rw [← holds_number_iff h.entries, AllWaited, length_round]
  refine forall_congr' fun p => ?_
  rw [mem_waited_round]
  constructor
  · exact fun hw hle hlt => (hw hlt).resolve_left fun hp => absurd (h.below p hp) (by omega)
  · intro hholds hlt
    by_cases hp : p < r.started.length
    · exact .inl (hall p hp)
    · exact .inr (hholds (by omega) hlt)

/-- A process that is neither in the table nor waited for. -/
def Lost (p : Nat) (r : Run Host) : Prop := p < r.started.length ∧ p ∉ r.waited ∧ ¬ Holds r.poolprocs p

/-- A process that is lost stays lost. -/
theorem Lost.round (h : Lost p r) : Lost p (round clients r) := by
  have hholds : ¬ Holds (ManyPools.round clients r).poolprocs p := by
    rintro hp
    obtain ⟨host, -, hhost⟩ := (holds_number_of_lt h.1).mp hp
    exact h.2.2 ⟨host, hhost⟩
  refine ⟨?_, fun hw => (mem_waited_round.mp hw).elim h.2.1 hholds, hholds⟩
  rw [length_round]
  exact Nat.lt_add_right _ h.1

/-- **Every run**, from what a round keeps. -/
theorem creating_spec (h : Head n r) (hrun : creating success clients fuel r = some (.ok run)) :
    Head n run ∧ run.remainingPools ≤ 0 ∧ (∀ p, Lost p r → Lost p run) ∧
      (AllWaited r → (AllWaited run ↔ ((served clients r).map Prod.fst).Nodup)) := by
  induction fuel generalizing r with
  | zero => cases hrun
  | succ fuel ih =>
    by_cases hpos : 0 < r.remainingPools
    · rw [creating_succ hpos] at hrun
      obtain ⟨hhead, hend, hlost, hall⟩ := ih (h.round hpos) hrun
      refine ⟨hhead, hend, fun p hp => hlost p hp.round, fun hw => ?_⟩
      have hfirst := allWaited_round_iff clients h hw
      by_cases hnodup : ((served clients r).map Prod.fst).Nodup
      · rw [hall (hfirst.mpr hnodup)]
        refine iff_of_true (hnodup.sublist (.map _ (take_sublist_take_left ?_))) hnodup
        show (r.remainingPools - clients.length).toNat ≤ r.remainingPools.toNat
        omega
      · refine iff_of_false (fun hrunWaited => hnodup (hfirst.mp fun p hp => ?_)) hnodup
        by_contra hnot
        have hp := hlost p ⟨hp, hnot, fun hholds => hnot (mem_waited_round.mpr (.inr hholds))⟩
        exact hp.2.1 (hrunWaited p hp.1)
    · rw [creating, if_neg hpos] at hrun
      obtain rfl := Except.ok.inj (Option.some.inj hrun)
      have hnone : served clients r = [] := by rw [served, Int.toNat_of_nonpos (by omega), take_zero]
      rw [hnone]
      exact ⟨h, by omega, fun _ hp => hp, fun hw => iff_of_true hw nodup_nil⟩

/-- With a client, every round brings the count down. -/
theorem exists_creating (hne : clients ≠ []) (hfuel : r.remainingPools.toNat < fuel) :
    ∃ run, creating success clients fuel r = some (.ok run) := by
  induction fuel generalizing r with
  | zero => exact absurd hfuel (Nat.not_lt_zero _)
  | succ fuel ih =>
    by_cases hpos : 0 < r.remainingPools
    · rw [creating_succ hpos]
      have := length_pos_iff.mpr hne
      refine ih ?_
      show (r.remainingPools - clients.length).toNat < fuel
      omega
    · rw [creating, if_neg hpos]
      exact ⟨r, rfl⟩

/-- Without one, the loop never ends. -/
theorem creating_nil (hpos : 0 < r.remainingPools) : creating success [] fuel r = none := by
  induction fuel generalizing r with
  | zero => rfl
  | succ fuel ih =>
    rw [creating_succ hpos]
    exact ih (by simpa [round] using hpos)

/-- The task returns, with one creation for each pool from `n` down to 1, all of them waited for. -/
def Works (clients : List (Host × String)) (n : Nat) : Prop :=
  ∃ fuel run, task success clients n fuel = some (.ok run) ∧
    run.started.map (fun c => c.poolnum) = (List.range n).map (fun i : Nat => (n : Int) - i) ∧
    ∀ p < run.started.length, p ∈ run.waited

/-- **When the task does its work.** There is a client, unless there is nothing to do, and the clients that
get a pool in the first round are on different hosts. -/
theorem works_iff (clients : List (Host × String)) (n : Nat) :
    Works clients n ↔ (n = 0 ∨ clients ≠ []) ∧ ((clients.map Prod.fst).take n).Nodup := by
  have hstart : Head n ({ remainingPools := n } : Run Host) := ⟨rfl, by simp, by simp [Holds], by simp⟩
  have hnone : AllWaited ({ remainingPools := n } : Run Host) := fun p hp => absurd hp (Nat.not_lt_zero p)
  rw [← map_take]
  constructor
  · rintro ⟨fuel, run, hrun, -, hall⟩
    obtain ⟨-, -, -, hwaited⟩ := creating_spec hstart hrun
    refine ⟨?_, (hwaited hnone).mp hall⟩
    by_contra hnot
    obtain ⟨hn, hnil⟩ := not_or.mp hnot
    obtain rfl := not_not.mp hnil
    rw [task, creating_nil (show (0 : Int) < n by omega)] at hrun
    cases hrun
  · rintro ⟨hclients, hnodup⟩
    obtain ⟨run, hrun⟩ : ∃ run, task success clients n (n + 1) = some (.ok run) := by
      rcases hclients with rfl | hne
      · exact ⟨_, rfl⟩
      · exact exists_creating hne (Nat.lt_succ_self n)
    obtain ⟨hhead, hend, -, hwaited⟩ := creating_spec hstart hrun
    have hn : run.started.length = n := by
      have := hhead.count
      omega
    have hnums := hhead.nums
    rw [hn] at hnums
    exact ⟨n + 1, run, hrun, hnums, (hwaited hnone).mpr hnodup⟩

/-- Of two clients on one host only the second is waited for. -/
theorem one_host_unwaited : (task success [(0, "client.0"), (0, "client.1")] 2 2).map
        (fun e => e.map fun run => (run.started.map fun c => c.poolnum, run.waited)) =
      some (.ok ([2, 1], {1})) := by
  decide

end ZbkcTasks.ManyPools

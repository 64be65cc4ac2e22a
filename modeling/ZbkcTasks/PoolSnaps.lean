import ZbkcTasks.PyProg
import ZbkcTasks.PyText

/-! `tasks/thrash_pool_snaps.py`. Each round takes a snapshot of all the pools under its own number, or
removes one that is left from all of them. The pools are the outside state. -/

namespace ZbkcTasks.PoolSnaps

open List Prog

abbrev Text := List Char

structure Config where
  pools : List Text := []
  maxSnaps : Int := 10
  minSnaps : Int := 5
  period : ℚ := 30

inductive Verb
  | mksnap
  | rmsnap
  deriving DecidableEq

inductive Op
  | stopping
  | sleep (period : ℚ)
  | snap (verb : Verb) (pool name : Text)
  | choice (n : Nat)

abbrev sig : Sig where
  Op := Op
  Ans
    | .stopping => Bool
    | .sleep _ => Unit
    | .snap _ _ _ => Except CommandError Unit
    | .choice n => Fin (n + 1)

structure State where
  snaps : List Nat := []
  index : Nat := 0

abbrev M := Prog sig State PyError

def rawClusterCmd (verb : Verb) (pool name : Text) : M Unit := .op (.snap verb pool name) ofCommand

def addPoolSnap (pool name : Text) : M Unit := rawClusterCmd .mksnap pool name

def removePoolSnap (pool name : Text) : M Unit := rawClusterCmd .rmsnap pool name

def choice {α : Type} : List α → M α
  | [] => .throw .indexError
  | x :: xs => .op (.choice xs.length) fun i => .ret ((x :: xs).get i)

def removeSnap (pools : List Text) : M Unit := .read fun s => do
  pyAssert (0 < s.snaps.length) ""
  let snap ← choice s.snaps
  forEach pools fun pool => removePoolSnap pool (numeral snap)
  .read fun s =>
    if snap ∈ s.snaps then .write { s with snaps := s.snaps.erase snap } (.ret ()) else .throw .valueError

def addSnap (pools : List Text) (snap : Nat) : M Unit := do
  forEach pools fun pool => addPoolSnap pool (numeral snap)
  .read fun s => .write { s with snaps := s.snaps ++ [snap] } (.ret ())

def thrashOnce (c : Config) : M Unit := .read fun s =>
  if s.snaps.length ≤ c.minSnaps then addSnap c.pools s.index
  else if c.maxSnaps ≤ s.snaps.length then removeSnap c.pools
  else choice [addSnap c.pools s.index, removeSnap c.pools] >>= fun act => act

def round (c : Config) : M Unit :=
  .read fun s => .write { s with index := s.index + 1 } (.op (.sleep c.period) fun _ => thrashOnce c)

def doThrash (c : Config) (n : Nat) : M Unit := whileDo (.op .stopping fun stop => .ret !stop) (round c) n

/-! ### The pools -/

/-- The pairs of a pool and a name that are there, and those that ever were. -/
structure Pools where
  held : Finset (Text × Text) := ∅
  made : Finset (Text × Text) := ∅

def Pools.after (x : Pools) : Op → Pools
  | .snap .mksnap pool name => ⟨insert (pool, name) x.held, insert (pool, name) x.made⟩
  | .snap .rmsnap pool name => { x with held := x.held.erase (pool, name) }
  | _ => x

def Succeeds : (o : Op) → sig.Ans o → Prop
  | .snap _ _ _, a => a = .ok ()
  | _, _ => True

def succeeding : Env sig State Pools := fun o s x a s' x' => s' = s ∧ x' = x.after o ∧ Succeeds o a

abbrev W := World sig State Pools

def start : W := ⟨{}, {}, []⟩

def Config.bound (c : Config) : Int := max c.maxSnaps (c.minSnaps + 1)

/-- A snapshot is made under a new name and while there is room; it is removed only from pools that have
it. -/
def Allowed (c : Config) : Op → State → Pools → Prop
  | .snap .mksnap pool name, s, x => (pool, name) ∉ x.made ∧ s.snaps.length + 1 ≤ c.bound
  | .snap .rmsnap pool name, s, x => c.minSnaps + 1 ≤ s.snaps.length ∧
      ∃ done rest, c.pools = done ++ pool :: rest ∧ ∀ p ∈ pool :: rest, (p, name) ∈ x.held
  | _, _, _ => True

def Matches (c : Config) (s : State) (x : Pools) : Prop :=
  ∀ pool ∈ c.pools, ∀ name, (pool, name) ∈ x.held ↔ ∃ k ∈ s.snaps, numeral k = name

/-- Numbers from `fresh` on have not been used. -/
structure Inv (c : Config) (floor : Int) (fresh : Nat) (s : State) (x : Pools) : Prop where
  nodup : s.snaps.Nodup
  old : ∀ k ∈ s.snaps, k < fresh
  agree : Matches c s x
  made : ∀ pool name, (pool, name) ∈ x.made → ∃ k < fresh, numeral k = name
  le_bound : s.snaps.length ≤ c.bound
  floor_le : floor ≤ s.snaps.length

/-- The command has been given for all pools but `rest`. -/
structure Swept (c : Config) (verb : Verb) (name : Text) (w : W) (rest : List Text) (w' : W) : Prop where
  suffix : rest <:+ c.pools
  st : w'.st = w.st
  held : ∀ pool ∈ c.pools, ∀ n, (pool, n) ∈ w'.ext.held ↔
    if n = name ∧ pool ∉ rest then verb = .mksnap else (pool, n) ∈ w.ext.held
  made : ∀ pool n, (pool, n) ∈ w'.ext.made → (pool, n) ∈ w.ext.made ∨ n = name ∧ pool ∉ rest

abbrev Keeps (c : Config) (floor : Int) (p : M Unit) (w : W) : Prop :=
  wp succeeding (Allowed c) p (returns fun _ w' => Inv c floor (w'.st.index + 1) w'.st w'.ext) w

variable {rest : List Text} {verb : Verb}

section Rounds

variable {c : Config} {w : W} {floor : Int} {name : Text}

theorem Swept.push {w' : W} {pool : Text} (hpools : c.pools.Nodup)
    (h : Swept c verb name w (pool :: rest) w') : Swept c verb name w rest
      (w'.push (.snap verb pool name) (.ok ()) w'.st (w'.ext.after (.snap verb pool name))) := by
  have hnot : pool ∉ rest := (nodup_cons.mp (hpools.sublist h.suffix.sublist)).1
  refine ⟨(suffix_cons pool rest).trans h.suffix, h.st, ?_, ?_⟩
  · intro p hp n
    have hbefore := h.held p hp n
    by_cases hthis : n = name ∧ p = pool
    · obtain ⟨rfl, rfl⟩ := hthis
      cases verb with
      | mksnap | rmsnap => simp [Pools.after, hnot]
    · have hne : (p, n) ≠ (pool, name) := fun h => hthis ⟨congrArg Prod.snd h, congrArg Prod.fst h⟩
      have hrest : n = name ∧ p ∉ pool :: rest ↔ n = name ∧ p ∉ rest := by
        rw [mem_cons]
        exact ⟨fun h => ⟨h.1, fun hp => h.2 (.inr hp)⟩,
          fun h => ⟨h.1, fun hp => hp.elim (fun hp => hthis ⟨h.1, hp⟩) h.2⟩⟩
      simp only [hrest] at hbefore
      rw [← hbefore]
      cases verb with
      | mksnap | rmsnap => simp [Pools.after, hne]
  · intro p n hmade
    have hor : (p, n) = (pool, name) ∨ (p, n) ∈ w'.ext.made := by
      cases verb with
      | mksnap => exact Finset.mem_insert.mp hmade
      | rmsnap => exact .inr hmade
    rcases hor with heq | hold
    · obtain ⟨rfl, rfl⟩ := Prod.mk.inj heq
      exact .inr ⟨rfl, hnot⟩
    · exact (h.made p n hold).imp_right fun h => ⟨h.1, fun hp => h.2 (.tail _ hp)⟩

theorem Swept.made_lt {w' : W} {fresh k : Nat} (hs : Swept c verb (numeral k) w rest w')
    (h : Inv c floor fresh w.st w.ext) (hk : k ≤ fresh) :
    ∀ pool n, (pool, n) ∈ w'.ext.made → ∃ j < fresh + 1, numeral j = n := by
  intro pool n hmade
  rcases hs.made pool n hmade with hold | hnew
  · obtain ⟨j, hj, heq⟩ := h.made pool n hold
    exact ⟨j, hj.trans (Nat.lt_succ_self fresh), heq⟩
  · exact ⟨k, Nat.lt_succ_of_le hk, hnew.1.symm⟩

theorem wp_sweep (verb : Verb) (hpools : c.pools.Nodup) (hA : ∀ pool rest w',
      Swept c verb name w (pool :: rest) w' → Allowed c (.snap verb pool name) w'.st w'.ext) :
    wp succeeding (Allowed c) (forEach c.pools fun pool => rawClusterCmd verb pool name)
      (returns fun _ => Swept c verb name w []) w := by
  refine wp_forEach_gives (Swept c verb name w) ?_ c.pools w ?_
  · intro pool rest w' h
    refine ⟨hA pool rest w' h, ?_⟩
    rintro _ _ _ ⟨rfl, rfl, rfl⟩
    exact h.push hpools
  · refine ⟨suffix_rfl, rfl, fun pool hp n => ?_, fun _ _ h => .inl h⟩
    rw [if_neg fun h => h.2 hp]

theorem wp_addSnap (hpools : c.pools.Nodup) (h : Inv c floor w.st.index w.st w.ext)
    (hroom : w.st.snaps.length + 1 ≤ c.bound) : Keeps c floor (addSnap c.pools w.st.index) w := by
  have hfresh : ∀ k < w.st.index, numeral k ≠ numeral w.st.index :=
    fun k hk heq => hk.ne (numeral_injective heq)
  refine wp_bind_returns (wp_sweep .mksnap hpools ?_) ?_
  · intro pool rest w' hs
    refine ⟨fun hmade => ?_, by rwa [hs.st]⟩
    rcases hs.made _ _ hmade with hold | hnew
    · obtain ⟨k, hk, heq⟩ := h.made _ _ hold
      exact hfresh k hk heq
    · exact hnew.2 (.head _)
  · intro _ w' hs
    show Inv c floor (w'.st.index + 1) { w'.st with snaps := w'.st.snaps ++ [w.st.index] } w'.ext
    rw [hs.st]
    refine ⟨?_, ?_, ?_, ?_, ?_, ?_⟩
    · exact nodup_append'.mpr ⟨h.nodup, nodup_singleton _, fun k hk hnew =>
        (h.old k hk).ne (mem_singleton.mp hnew)⟩
    · intro k hk
      rcases mem_append.mp hk with hk | hk
      · exact (h.old k hk).trans (Nat.lt_succ_self _)
      · rw [mem_singleton.mp hk]
        exact Nat.lt_succ_self _
    · intro pool hp n
      rw [hs.held pool hp n]
      by_cases hn : n = numeral w.st.index
      · rw [if_pos ⟨hn, not_mem_nil⟩]
        exact ⟨fun _ => ⟨_, by simp, hn.symm⟩, fun _ => rfl⟩
      · rw [if_neg fun h => hn h.1, h.agree pool hp n]
        have hlast : ¬ numeral w.st.index = n := fun h => hn h.symm
        simp [or_and_right, exists_or, hlast]
    · exact hs.made_lt h le_rfl
    · simpa using hroom
    · have := h.floor_le
      simp only [length_append, length_singleton]
      omega

theorem wp_choice {α : Type} {xs : List α} (hne : xs ≠ []) : wp succeeding (Allowed c) (choice xs)
      (returns fun a w' => a ∈ xs ∧ w'.st = w.st ∧ w'.ext = w.ext) w := by
  obtain ⟨x, xs, rfl⟩ := exists_cons_of_ne_nil hne
  refine ⟨trivial, ?_⟩
  rintro i _ _ ⟨rfl, rfl, -⟩
  exact ⟨get_mem _ _, rfl, rfl⟩

theorem wp_removeSnap (hpools : c.pools.Nodup) (hmin : 0 ≤ c.minSnaps) (hfloor : floor ≤ c.minSnaps)
    (h : Inv c floor w.st.index w.st w.ext) (hmore : c.minSnaps + 1 ≤ w.st.snaps.length) :
    Keeps c floor (removeSnap c.pools) w := by
  have hpos : 0 < w.st.snaps.length := by omega
  show Keeps c floor (pyAssert (0 < w.st.snaps.length) "" >>= fun _ => choice w.st.snaps >>= _) w
  rw [pyAssert, if_pos hpos, ret_bind]
  refine wp_bind_returns (wp_choice (length_pos_iff.mp hpos)) ?_
  rintro snap w1 ⟨hsnap, hst, hext⟩
  rw [← hst] at hsnap hmore h
  rw [← hext] at h
  refine wp_bind_returns (wp_sweep .rmsnap hpools ?_) ?_
  · intro pool rest w' hs
    obtain ⟨done, hdone⟩ := hs.suffix
    refine ⟨by rwa [hs.st], done, rest, hdone.symm, fun p hp => ?_⟩
    have hp' : p ∈ c.pools := hs.suffix.mem hp
    rw [hs.held p hp', if_neg fun h => h.2 hp, h.agree p hp']
    exact ⟨snap, hsnap, rfl⟩
  · intro _ w' hs
    show Keeps c floor (if snap ∈ w'.st.snaps then _ else _) w'
    rw [hs.st, if_pos hsnap]
    have hlength := length_erase_of_mem hsnap
    have hle := h.le_bound
    refine ⟨h.nodup.erase snap, ?_, ?_, ?_, ?_, ?_⟩
    · exact fun k hk => (h.old k (mem_of_mem_erase hk)).trans (Nat.lt_succ_self _)
    · intro pool hp n
      rw [hs.held pool hp n]
      simp only [h.nodup.mem_erase_iff]
      by_cases hn : n = numeral snap
      · rw [if_pos ⟨hn, not_mem_nil⟩]
        refine ⟨fun h => absurd h (by decide), ?_⟩
        rintro ⟨k, hk, heq⟩
        exact absurd (numeral_injective (heq.trans hn)) hk.1
      · rw [if_neg fun h => hn h.1, h.agree pool hp n]
        refine exists_congr fun k => and_congr_left fun heq => (and_iff_right ?_).symm
        rintro rfl
        exact hn heq.symm
    · exact hs.made_lt h (h.old snap hsnap).le
    · simp only [hlength]
      omega
    · simp only [hlength]
      omega

theorem wp_thrashOnce (hpools : c.pools.Nodup) (hmin : 0 ≤ c.minSnaps) (hfloor : floor ≤ c.minSnaps)
    (h : Inv c floor w.st.index w.st w.ext) : Keeps c floor (thrashOnce c) w := by
  show Keeps c floor (if (w.st.snaps.length : Int) ≤ c.minSnaps then _ else _) w
  by_cases hlow : (w.st.snaps.length : Int) ≤ c.minSnaps
  · rw [if_pos hlow]
    exact wp_addSnap hpools h (le_max_of_le_right (by omega))
  rw [if_neg hlow]
  have hmore : c.minSnaps + 1 ≤ w.st.snaps.length := by omega
  by_cases hhigh : c.maxSnaps ≤ w.st.snaps.length
  · rw [if_pos hhigh]
    exact wp_removeSnap hpools hmin hfloor h hmore
  rw [if_neg hhigh]
  refine wp_bind_returns (wp_choice (cons_ne_nil _ _)) ?_
  rintro act w1 ⟨hact, hst, hext⟩
  rw [← hst] at hact hmore hhigh h
  rw [← hext] at h
  rcases mem_pair.mp hact with rfl | rfl
  · exact wp_addSnap hpools h (le_max_of_le_left (by omega))
  · exact wp_removeSnap hpools hmin hfloor h hmore

theorem wp_round (hpools : c.pools.Nodup) (hmin : 0 ≤ c.minSnaps) (hfloor : floor ≤ c.minSnaps)
    (h : Inv c floor (w.st.index + 1) w.st w.ext) : Keeps c floor (round c) w := by
  refine ⟨trivial, ?_⟩
  rintro _ _ _ ⟨rfl, rfl, -⟩
  exact wp_thrashOnce hpools hmin hfloor ⟨h.nodup, h.old, h.agree, h.made, h.le_bound, h.floor_le⟩

theorem wp_doThrash (hpools : c.pools.Nodup) (hmin : 0 ≤ c.minSnaps) (hfloor : floor ≤ c.minSnaps) (n : Nat)
    (h : Inv c floor (w.st.index + 1) w.st w.ext) : wp succeeding (Allowed c) (doThrash c n)
      (fun r w' => (∀ e, r ≠ .exn e) ∧ Inv c floor (w'.st.index + 1) w'.st w'.ext) w := by
  refine wp_whileDo (fun w => Inv c floor (w.st.index + 1) w.st w.ext) ?_ ?_ n w h
  · intro w h
    refine ⟨trivial, ?_⟩
    rintro stop _ _ ⟨rfl, rfl, -⟩
    cases stop with
    | true => exact ⟨fun _ => nofun, h⟩
    | false =>
      show wp succeeding (Allowed c) (round c) _ _
      refine wp_mono ?_ (wp_round hpools hmin hfloor h)
      rintro (_ | e | _) w' h'
      · exact h'
      · exact h'.elim
      · exact h'.elim
  · exact fun w h => ⟨fun _ => nofun, h⟩

end Rounds

theorem inv_start {c : Config} (hmin : 0 ≤ c.minSnaps) :
    Inv c 0 (start.st.index + 1) start.st start.ext := by
  have hbound : 0 ≤ c.bound := le_max_of_le_right (by omega)
  refine ⟨nodup_nil, ?_, ?_, ?_, hbound, le_rfl⟩ <;> simp [Matches, start]

/-- **The snapshots stay within bounds.** Nothing has been raised, no name was used twice and every removal
found its snapshot; the pools hold the snapshots of the list, which is not too long. -/
theorem thrash_within_bounds (c : Config) (hmin : 0 ≤ c.minSnaps) (hpools : c.pools.Nodup) (n : Nat)
    {r : Outcome PyError Unit} {w : W} (hrun : Exec succeeding (doThrash c n) start r w) :
    (∀ e, r ≠ .exn e) ∧ (∀ e ∈ w.log, Allowed c e.op e.st e.ext) ∧ w.st.snaps.length ≤ c.bound ∧
      w.st.snaps.Nodup ∧ Matches c w.st w.ext ∧
      ∀ m r' w', c.minSnaps ≤ w.st.snaps.length → Exec succeeding (doThrash c m) w r' w' →
        c.minSnaps ≤ w'.st.snaps.length := by
  have hwp := wp_doThrash hpools hmin hmin n (inv_start hmin)
  obtain ⟨hno, h⟩ := wp_post hwp hrun
  refine ⟨hno, wp_events hwp hrun rfl, h.le_bound, h.nodup, h.agree, ?_⟩
  intro m r' w' hreached hrest
  have hfrom : Inv c c.minSnaps (w.st.index + 1) w.st w.ext :=
    ⟨h.nodup, h.old, h.agree, h.made, h.le_bound, hreached⟩
  exact (wp_post (wp_doThrash hpools hmin le_rfl m hfrom) hrest).2.floor_le

def twoPools : Config := { pools := [['a'], ['b']], maxSnaps := 1, minSnaps := 0 }

def first (o : Op) (s : State) (x : Pools) : sig.Ans o × State × Pools :=
  (match o with
    | .stopping => false
    | .sleep _ => ()
    | .snap _ _ _ => .ok ()
    | .choice n => ⟨0, Nat.succ_pos n⟩, s, x.after o)

theorem succeeding_first (o : Op) (s : State) (x : Pools) :
    succeeding o s x (first o s x).1 (first o s x).2.1 (first o s x).2.2 := by
  refine ⟨rfl, rfl, ?_⟩
  cases o with
  | snap verb pool name => rfl
  | _ => trivial

theorem twoPools_within_bounds :
    (runWith first (doThrash twoPools 3) start).2.st.snaps.length ≤ twoPools.bound ∧
      (runWith first (doThrash twoPools 3) start).2.st.snaps = [3] := by
  have hrun := exec_runWith succeeding_first (doThrash twoPools 3) start
  exact ⟨(thrash_within_bounds twoPools (by decide) (by decide) 3 hrun).2.2.1, by decide⟩

end ZbkcTasks.PoolSnaps

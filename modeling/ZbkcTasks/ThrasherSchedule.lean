import ZbkcTasks.ThrasherPool

/-! Two properties of every schedule: what is still running when `do_join` has returned, and which
attributes a greenlet finds. Both hold under a condition, and a schedule shows what happens without
it. -/

namespace ZbkcTasks

open Prog

section

variable {config : ThrasherConfig} {remotes : List Remote} {fuel n : Nat} {P : GreenletPool}

theorem scrubber_of_alive (hP : Reaches (greenlets config remotes fuel n) (pool config remotes) P)
    (hjoin : EndedWith (.ok ()) (P.threads .main)) {g : Greenlet}
    (hg : (P.threads g).alive = true) : Scrubs config ∧ ∃ i, g = .scrub i := by
  obtain ⟨w, hw⟩ := sound_of_reaches hP
  have hmain := hjoin.eq
  have hlive : P.threads g ≠ .idle := fun hidle => by
    rw [hidle] at hg
    cases hg
  cases hown : g.own with
  | true =>
    -- started, so expected, so joined, so at its end
    have hjoined : ∀ g, Expected w.st g → g ∈ w.ext.joined := by
      rcases hw.main with ⟨hready, -⟩ | hmeets
      · rw [hready] at hmain
        cases hmain
      · rw [hmain] at hmeets
        exact hmeets.2
    obtain ⟨r, hr⟩ := hw.joined g (hjoined g (hw.accounted.expected g (hw.known g hown hlive))) hown
    rw [hr] at hg
    cases hg
  | false =>
    cases g with
    | main =>
      rw [hmain] at hg
      cases hg
    | scrub i => exact ⟨hw.scrubs i hlive, i, rfl⟩
    | _ => cases hown

end

/-- Every command succeeds, the OSDs are as given, and a joined greenlet gives its result. -/
def quietAnswer (status : OsdStatus) (threads : Greenlet → GreenletThread) : (o : Op) → o.Ans
  | .cmd .getOsdStatus => .ok status
  | .get g =>
      match threads g with
      | .done r => r
      | _ => .ok ()
  | o => o.okAns

def played (config : ThrasherConfig) (remotes : List Remote) (osds : List Osd) (turns : List Greenlet) :
    Option GreenletPool :=
  play (greenlets config remotes 1 2) (quietAnswer ⟨osds, [], osds, [], [], osds⟩) turns
    (pool config remotes)

/-- **Quiet after `do_join`.** Nothing more is issued once `do_join` has returned if no scrub interval is
set, or if no scrubber is running. -/
theorem quiet_after_join (config : ThrasherConfig) (remotes : List Remote) (fuel n : Nat)
    {P P' : GreenletPool} (hP : Reaches (greenlets config remotes fuel n) (pool config remotes) P)
    (hjoin : EndedWith (.ok ()) (P.threads .main))
    (hscrub : config.scrubInterval.getD (-1) ≤ 0 ∨ ∀ i, (P.threads (.scrub i)).alive = false)
    (hP' : Reaches (greenlets config remotes fuel n) P P') : P'.issued = P.issued := by
  have hstuck : ∀ g, (P.threads g).alive = false := by
    intro g
    by_contra halive
    obtain ⟨hscrubs, i, rfl⟩ := scrubber_of_alive hP hjoin (by simpa using halive)
    rcases hscrub with hinterval | hended
    · exact absurd hscrubs (not_lt.mpr hinterval)
    · exact halive (hended i)
  rw [hP'.eq_of_stuck hstuck]

theorem quiet_after_join_default :
    ∃ P, Reaches (greenlets {} [] 1 2) (pool {} []) P ∧ EndedWith (.ok ()) (P.threads .main) ∧
      ∀ P', Reaches (greenlets {} [] 1 2) P P' → P'.issued = P.issued := by
  have hplayed : (played {} [] [0] [.main, .main, .main, .main, .main, .thrash, .main]).any
      (fun P => decide (EndedWith (.ok ()) (P.threads .main))) = true := by decide +kernel
  obtain ⟨P, hP, htest⟩ := exists_reaches hplayed
  have hjoin := of_decide_eq_true htest
  exact ⟨P, hP, hjoin, fun P' => quiet_after_join {} [] 1 2 hP hjoin (.inl (by decide +kernel))⟩

/-- The turns of a run that scrubs: a first round of the thrash loop starts a scrubber, then `do_join`. -/
def scrubTurns : List Greenlet :=
  [.main, .main, .main, .main, .thrash, .thrash, .thrash, .thrash, .thrash, .thrash, .thrash, .main,
    .thrash, .main]

/-- Nothing joins a scrubber: one goes on to scrub after `do_join` has returned. -/
theorem scrubber_outlives_join : ∃ P P', Reaches (greenlets { scrubInterval := some 60 } [] 1 2)
        (pool { scrubInterval := some 60 } []) P ∧
      EndedWith (.ok ()) (P.threads .main) ∧
      Reaches (greenlets { scrubInterval := some 60 } [] 1 2) P P' ∧
      P'.issued = (.scrub 0, .cmd (.rawClusterCmd (.osdScrub false 0))) :: P.issued := by
  have hplayed : (played { scrubInterval := some 60 } [] [0] scrubTurns).any (fun P =>
      decide (EndedWith (.ok ()) (P.threads .main)) &&
      (play (greenlets { scrubInterval := some 60 } [] 1 2) (quietAnswer ⟨[], [], [], [], [], []⟩)
        [.scrub 0] P).any fun P' => decide
          (P'.issued = (.scrub 0, .cmd (.rawClusterCmd (.osdScrub false 0))) :: P.issued)) = true := by
    decide +kernel
  obtain ⟨P, hP, htest⟩ := exists_reaches hplayed
  obtain ⟨hjoin, hscrub⟩ := Bool.and_eq_true_iff.mp htest
  obtain ⟨P', hP', hissued⟩ := exists_reaches hscrub
  exact ⟨P, P', hP, of_decide_eq_true hjoin, hP', of_decide_eq_true hissued⟩

/-- **Attributes are set before they are read.** If `__init__` does not ask the hosts for the tool, no
other greenlet raises an `AttributeError`. -/
theorem attributes_set_before_read (config : ThrasherConfig) (remotes : List Remote) (fuel n : Nat)
    (hprompt : config.powercycle = true ∨ remotes = []) {P : GreenletPool}
    (hP : Reaches (greenlets config remotes fuel n) (pool config remotes) P) {g : Greenlet}
    (hg : g ≠ .main) (name : String) : ¬ EndedWith (.error (.attributeError name)) (P.threads g) := by
  obtain ⟨w, hw⟩ := sound_of_reaches hP
  intro hend
  have hfine := hw.others g hg
  rw [hend.eq] at hfine
  exact hfine hprompt name rfl

/-- The turns of a run that kills an OSD while `main` waits after the start of the greenlets. -/
def killTurns : List Greenlet :=
  [.main, .main, .main, .main, .thrash, .thrash, .thrash, .thrash, .thrash, .thrash, .thrash]

theorem attributes_set_before_read_powercycle :
    ∃ P, Reaches (greenlets { powercycle := true } [0] 1 2) (pool { powercycle := true } [0]) P ∧
      P.issued.head? = some (.thrash, .sleep 5) ∧
      ∀ name, ¬ EndedWith (.error (.attributeError name)) (P.threads .thrash) := by
  have hplayed : (played { powercycle := true } [0] [0, 1, 2] killTurns).any
      (fun P => decide (P.issued.head? = some (.thrash, .sleep 5))) = true := by decide +kernel
  obtain ⟨P, hP, htest⟩ := exists_reaches hplayed
  exact ⟨P, hP, of_decide_eq_true htest, fun name =>
    attributes_set_before_read { powercycle := true } [0] 1 2 (.inl rfl) hP (by decide) name⟩

/-- While `__init__` waits for the host, the thrash loop reads an attribute that is not set yet. -/
theorem tool_read_before_set : ∃ P, Reaches (greenlets {} [0] 1 2) (pool {} [0]) P ∧
      EndedWith (.error (.attributeError "zbkc_objectstore_tool")) (P.threads .thrash) := by
  have hplayed : (played {} [0] [0, 1, 2] killTurns).any (fun P => decide
      (EndedWith (.error (.attributeError "zbkc_objectstore_tool")) (P.threads .thrash))) = true := by
    decide +kernel
  obtain ⟨P, hP, htest⟩ := exists_reaches hplayed
  exact ⟨P, hP, of_decide_eq_true htest⟩

end ZbkcTasks

import ZbkcTasks.ThrasherBook

/-! What `do_thrash` leaves when it returns. Its loop may be left with OSDs dead and out; `all_up` then
brings all of them back. -/

namespace ZbkcTasks

open List Prog

variable {S : Finset Osd} {t₀ : Thrasher} {w : W Unit} {fuel : Nat}

/-- What the loops of `all_up` are made of. -/
def upUsage : Usage taskSig Thrasher PyError where
  ops o := o.quiet = true
  acts m := ∃ osd, m = (Mutator.revive false).run osd ∨ m = Mutator.in_.run osd
  throws _ := True
  reads _ := True

theorem upUsage_fits : Fits upUsage :=
  ⟨fun _ ho => ho, fun _ _ _ _ => .inr trivial, fun _ _ => trivial⟩

/-- While no OSD is dead, none can be revived, and marking one in kills none. -/
theorem noneDead_run {m : M Unit} (hm : upUsage.acts m) (hw : Started w.st ∧ w.st.osds .dead = []) :
    wp anyEnv (fun _ _ _ => True) m
      (settles (fun w => Started w.st ∧ w.st.osds .dead = []) (fun _ => True) fun _ => True) w := by
  obtain ⟨hstarted, hdead⟩ := hw
  obtain ⟨osd, rfl | rfl⟩ := hm
  · rw [Mutator.run, wp_bind, wp_attr (hstarted _ rfl rfl), chain_ret,
      wp_cmdFirst (by decide) hstarted fun _ _ _ (ho : Others _ _) => ho.started hstarted]
    refine ⟨trivial, fun r s x (ho : Others _ _) => ?_⟩
    cases r with
    | error e => exact ⟨trivial, trivial⟩
    | ok v =>
      rw [answered_ok, chain_ret, ho.osds, hdead, if_neg not_mem_nil]
      exact ⟨trivial, trivial⟩
  · rw [Mutator.run, wp_moveFirst (by decide) hstarted]
    split
    · refine ⟨trivial, fun r s x (ho : Others _ _) => ?_⟩
      cases r with
      | error e => exact ⟨trivial, trivial⟩
      | ok v =>
        refine ⟨ho.started (hstarted.moved _ _ _), ?_⟩
        rw [World.push_st, ho.osds, Thrasher.osds_moved]
        exact hdead
    · exact ⟨trivial, trivial⟩

theorem wp_anyLeft {l : OsdList} {Q : Outcome PyError Bool → W Unit → Prop} (hw : Started w.st) :
    wp anyEnv (fun _ t _ => Booked S t) (do let xs ← osds l; .ret (decide (0 < xs.length))) Q w ↔
      Q (.ret (decide (0 < (w.st.osds l).length))) w := by
  rw [wp_bind, wp_osds hw, chain_ret]
  exact Iff.rfl

/-- A loop over one of the lists ends when the list is empty. -/
theorem wp_untilEmpty {l : OsdList} {body : M Unit} {I : W Unit → Prop} (hI : ∀ w, I w → Kept S t₀ w)
    (hbody : ∀ w, I w → wp anyEnv (fun _ t _ => Booked S t) body (gives (fun _ => I) (Intact S)) w)
    (hw : I w) : wp anyEnv (fun _ t _ => Booked S t)
      (whileDo (do let xs ← osds l; .ret (decide (0 < xs.length))) body fuel)
      (gives (fun _ w' => I w' ∧ w'.st.osds l = []) (Intact S)) w := by
  refine wp_whileDo_gives (J := I) (fun w hw => ?_) hbody (fun w hw => (hI w hw).intact) fuel w hw
  rw [wp_anyLeft (hI w hw).started]
  by_cases hlen : 0 < (w.st.osds l).length
  · rw [decide_eq_true hlen]
    exact hw
  · rw [decide_eq_false hlen]
    exact ⟨hw, length_eq_zero_iff.mp (by omega)⟩

theorem restored_allUp (hw : Kept S t₀ w) : wp anyEnv (fun _ t _ => Booked S t) (allUp fuel)
      (gives (fun _ w' => (Kept S t₀ w' ∧ w'.st.osds .dead = []) ∧ w'.st.osds .out = []) (Intact S)) w := by
  have henv : ∀ o t x a t' x', anyEnv o t x a t' x' → Others t t' := fun _ _ _ _ _ _ h => h
  have hallowed : ∀ μ, Allows loopUsage μ := fun μ osd => .inl ⟨μ, osd, rfl⟩
  have hfits := loopUsage_acts.fits
  have hup : ∀ {μ}, μ = .revive false ∨ μ = .in_ → Allows upUsage μ := by
    rintro μ (rfl | rfl) osd
    · exact ⟨osd, .inl rfl⟩
    · exact ⟨osd, .inr rfl⟩
  refine wp_seq (wp_untilEmpty (fun _ h => h) (fun w hw => ?_) hw) fun _ w1 h1 =>
    wp_untilEmpty (fun _ h => h.1) (fun w hw => ?_) h1
  · exact wp_gives_of_settles (kept_of_uses henv
      ((uses_log hfits).bind fun _ => uses_reviveOsd hfits (hallowed _) none) hw)
  · have hdead := Uses.wp (E := anyEnv) (A := fun _ _ _ => True) (K := fun _ => True)
      (I := fun w => Started w.st ∧ w.st.osds .dead = []) (fun _ _ => trivial) (fun _ _ => trivial)
      (fun o w _ hw => ⟨trivial, fun a s x (ho : Others _ _) => ⟨ho.started hw.1, (ho.osds _).trans hw.2⟩⟩)
      (fun _ _ hm hw => noneDead_run hm hw) ((uses_log upUsage_fits).bind fun _ =>
        uses_inOsd upUsage_fits (hup (.inl rfl)) (hup (.inr rfl)) none) w ⟨hw.1.started, hw.2⟩
    refine wp_mono ?_ (wp_and (kept_of_uses henv
      ((uses_log hfits).bind fun _ => uses_inOsd hfits (hallowed _) (hallowed _) none) hw.1) hdead)
    rintro (_ | e | _) w' ⟨hkept, hnone⟩
    · exact ⟨hkept, hnone.2⟩
    · exact hkept.2
    · exact hkept

/-- An OSD that is not on the list was taken off it last, or has never been on it. -/
theorem Tells.newest {kind : Op → Option (Osd × Bool)} {start xs : List Osd}
    {log : List (Event taskSig Thrasher Unit)} {osd : Osd} (h : Tells kind start log xs) (hosd : osd ∉ xs) :
    latest kind log osd = some false ∨ latest kind log osd = none ∧ osd ∉ start := by
  rw [h osd] at hosd
  cases hlatest : latest kind log osd with
  | none =>
    rw [hlatest] at hosd
    exact .inr ⟨rfl, by simpa using hosd⟩
  | some on =>
    rw [hlatest] at hosd
    exact .inl (congrArg some (Bool.eq_false_iff.mpr hosd))

/-- **All is put back.** If `do_thrash` returns then no OSD is dead or out: every OSD that it has killed or
found dead was revived, and every one marked or found out was marked in. -/
theorem thrash_restores (S : Finset Osd) (t : Thrasher) (hstarted : Started t) (hbooked : Booked S t)
    (fuel n : Nat) {w : W Unit} (hrun : Exec anyEnv (doThrash fuel n) ⟨t, (), []⟩ (.ret ()) w) (osd : Osd) :
    (osd ∉ w.st.deadOsds ∧ osd ∉ w.st.outOsds) ∧
      (latest kills w.log osd = some false ∨ latest kills w.log osd = none ∧ osd ∉ t.deadOsds) ∧
      (latest marks w.log osd = some false ∨ latest marks w.log osd = none ∧ osd ∉ t.outOsds) := by
  have henv : ∀ o t x a t' x', anyEnv o t x a t' x' → Others t t' := fun _ _ _ _ _ _ h => h
  have hwp : wp anyEnv (fun _ t _ => Booked S t) (doThrash fuel n)
      (gives (fun _ w' => (Kept S t w' ∧ w'.st.osds .dead = []) ∧ w'.st.osds .out = []) (Intact S))
      ⟨t, (), []⟩ := by
    refine wp_logExc (fun _ _ h => h.started) ?_
    rw [wp_bind, wp_attr (hstarted _ rfl rfl), chain_ret, wp_bind, wp_log hstarted, chain_ret]
    refine wp_seq (wp_gives_of_settles
      (kept_thrashRounds henv fuel _ n (kept_start hstarted hbooked ()))) fun goesOn w1 h1 => ?_
    cases goesOn with
    | true => exact h1.intact
    | false => exact restored_allUp h1
  obtain ⟨⟨hkept, hdead⟩, hout⟩ := wp_post hwp hrun
  have hnotDead : osd ∉ w.st.osds .dead := by
    rw [hdead]
    exact not_mem_nil
  have hnotOut : osd ∉ w.st.osds .out := by
    rw [hout]
    exact not_mem_nil
  exact ⟨⟨hnotDead, hnotOut⟩, hkept.dead.newest hnotDead, hkept.out.newest hnotOut⟩

/-- OSD 3 is dead and OSD 2 is out when the thrasher is stopped. -/
theorem thrash_restores_fourOsds :
    let t : Thrasher := { fourOsds {} with stopping := true }
    ∃ w, Exec anyEnv (doThrash 3 1) ⟨t, (), []⟩ (.ret ()) w ∧
      latest kills w.log 3 = some false ∧ latest marks w.log 2 = some false := by
  intro t
  have hquiet : ∀ o t x, anyEnv o t x (okRun o t x).1 (okRun o t x).2.1 (okRun o t x).2.2 :=
    fun _ t _ => .refl t
  have hrun := exec_runWith hquiet (doThrash 3 1) ⟨t, (), []⟩
  have hret : (runWith (S := taskSig) okRun (doThrash 3 1) ⟨t, (), []⟩).1 = .ret () := by decide +kernel
  rw [hret] at hrun
  have hrestored := thrash_restores _ t (fun a _ _ => mem_allAttrs a)
    ⟨(fourOsds_booked {}).inOut, (fourOsds_booked {}).liveDead⟩ 3 1 hrun
  exact ⟨_, hrun, (hrestored 3).2.1.resolve_right fun h => h.2 (by decide),
    (hrestored 2).2.2.resolve_right fun h => h.2 (by decide)⟩

end ZbkcTasks

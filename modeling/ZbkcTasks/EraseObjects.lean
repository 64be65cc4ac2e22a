import Mathlib.Data.Finset.Erase
import ZbkcTasks.FsObjects

/-! `erase_mds_objects`, which removes the objects of one rank from the metadata pool. Every numeral in a
name is followed by a character that no numeral has, so no other rank loses an object. -/

namespace ZbkcTasks.FsObjects

open List Prog

def eraseMetadataObjects (start : Name) : M Unit := do
  let allObjects ← listObjects .metadata
  let matchingObjects := allObjects.filter fun o => start <+: o
  forEach matchingObjects fun o => rados (.rm .metadata o) >>= fun _ => .ret ()

/-- `"%x." % (multiplier * 0x100 + rank)`. -/
def objPrefix (rank multiplier : Nat) : Name := hexNumeral (multiplier * 0x100 + rank) ++ ['.']

/-- `"mds{rank:d}_".format(rank=rank)`. -/
def tablePrefix (rank : Nat) : Name := "mds".toList ++ numeral rank ++ ['_']

def eraseMdsObjects (rank : Nat) : M Unit := do
  eraseMetadataObjects (objPrefix rank 2)
  eraseMetadataObjects (objPrefix rank 3)
  eraseMetadataObjects (objPrefix rank 4)
  eraseMetadataObjects (tablePrefix rank)

/-! ### The metadata pool -/

/-- A listing prints the objects of the metadata pool in any order, and an object that is there can be
removed. -/
def poolEnv : Env sig Unit (Finset Name) := fun c _ x a _ x' =>
  match c with
  | .ls .metadata =>
      x' = x ∧ ∃ names : List Name, names.Nodup ∧ names.toFinset = x ∧ a = .ok (printed names)
  | .rm .metadata o => if o ∈ x then x' = x.erase o ∧ ∃ out, a = .ok out else x' = x ∧ ∃ e, a = .error e
  | .ls .data => x' = x
  | .rm .data _ => x' = x

theorem poolEnv_total (c : Cmd) (u : Unit) (x : Finset Name) : ∃ a u' x', poolEnv c u x a u' x' := by
  cases c with
  | ls pool =>
    cases pool with
    | data => exact ⟨.ok [], (), x, rfl⟩
    | metadata => exact ⟨_, (), x, rfl, x.toList, x.nodup_toList, Finset.toList_toFinset x, rfl⟩
  | rm pool o =>
    cases pool with
    | data => exact ⟨.ok [], (), x, rfl⟩
    | metadata =>
      by_cases ho : o ∈ x
      · have hstep : x.erase o = x.erase o ∧
            ∃ out, (.ok [] : Except CommandError (List Char)) = .ok out := ⟨rfl, [], rfl⟩
        exact ⟨.ok [], (), x.erase o, (if_pos ho).mpr hstep⟩
      · have hstep : x = x ∧
            ∃ e, (.error (.failed 2) : Except CommandError (List Char)) = .error e := ⟨rfl, _, rfl⟩
        exact ⟨.error (.failed 2), (), x, (if_neg ho).mpr hstep⟩

section Erasing

variable {w : World sig Unit (Finset Name)} {start : Name}

abbrev erases (p : M Unit) (P : Finset Name → Prop) (w : World sig Unit (Finset Name)) : Prop :=
  wp poolEnv (fun _ _ _ => True) p (returns fun _ w' => P w'.ext) w

theorem erases_rm {o : Name} (ho : o ∈ w.ext) :
    erases (rados (.rm .metadata o) >>= fun _ => .ret ()) (fun y => y = w.ext.erase o) w := by
  refine ⟨trivial, fun a _ x hstep => ?_⟩
  have hstep : if o ∈ w.ext then x = w.ext.erase o ∧ ∃ out, a = .ok out else _ := hstep
  rw [if_pos ho] at hstep
  obtain ⟨hx, out, rfl⟩ := hstep
  exact hx

theorem erases_all {matching : List Name} (hnodup : matching.Nodup)
    (hmatching : ∀ o ∈ matching, o ∈ w.ext) :
    erases (forEach matching fun o => rados (.rm .metadata o) >>= fun _ => .ret ())
      (fun y => ∀ o, o ∈ y ↔ o ∈ w.ext ∧ o ∉ matching) w := by
  induction matching generalizing w with
  | nil => exact fun o => (and_iff_left not_mem_nil).symm
  | cons first rest ih =>
    obtain ⟨hnot, hrest⟩ := nodup_cons.mp hnodup
    obtain ⟨hfirst, hthere⟩ := forall_mem_cons.mp hmatching
    apply wp_seq (erases_rm hfirst)
    intro _ w' hext
    have hthere' : ∀ o ∈ rest, o ∈ w'.ext := by
      intro o ho
      rw [hext, Finset.mem_erase]
      exact ⟨fun heq => hnot (heq ▸ ho), hthere o ho⟩
    apply wp_result _ (ih hrest hthere')
    intro _ w'' hy o
    rw [hy o, hext, Finset.mem_erase, mem_cons, not_or]
    exact ⟨fun h => ⟨h.1.2, h.1.1, h.2⟩, fun h => ⟨⟨h.2.1, h.1⟩, h.2.2⟩⟩

theorem erases_start (hstart : start ≠ []) (hnames : ∀ o ∈ w.ext, ∀ c ∈ o, isBlank c = false) :
    erases (eraseMetadataObjects start) (fun y => ∀ o, o ∈ y ↔ o ∈ w.ext ∧ ¬ start <+: o) w := by
  refine ⟨trivial, fun a _ x hstep => ?_⟩
  obtain ⟨rfl, names, hnodup, hset, rfl⟩ :
    x = w.ext ∧ ∃ names : List Name, names.Nodup ∧ names.toFinset = w.ext ∧ a = .ok (printed names) := hstep
  have hmem : ∀ o, o ∈ names ↔ o ∈ w.ext := fun o => by rw [← hset, mem_toFinset]
  have hblank : ∀ name ∈ names, ∀ c ∈ name, isBlank c = false := fun name hname =>
    hnames name ((hmem name).mp hname)
  have hmatching : (listed (printed names)).filter (fun o => start <+: o) =
      names.filter fun o => start <+: o := by
    have hsub : ∀ xs : List Name, xs.filter (fun o => start <+: o) =
        (xs.filter (· ≠ [])).filter fun o => start <+: o := by
      intro xs
      rw [filter_filter]
      refine filter_congr fun o _ => ?_
      by_cases ho : start <+: o
      · have hne : o ≠ [] := fun hnil => hstart (prefix_nil.mp (hnil ▸ ho))
        simp [ho, hne]
      · simp [ho]
    rw [hsub, filter_listed_printed hblank, ← hsub]
  show wp poolEnv _ (forEach ((listed (printed names)).filter fun o => start <+: o)
    fun o => rados (.rm .metadata o) >>= fun _ => .ret ()) _ _
  rw [hmatching]
  refine wp_result ?_ (erases_all (hnodup.filter _) fun o ho =>
    (hmem o).mp (mem_filter.mp ho).1)
  intro _ w' hy o
  have hy : o ∈ w'.ext ↔ o ∈ w.ext ∧ o ∉ names.filter fun o => start <+: o := hy o
  rw [hy, mem_filter, decide_eq_true_eq, hmem o]
  exact ⟨fun h => ⟨h.1, fun hp => h.2 ⟨h.1, hp⟩⟩, fun h => ⟨h.1, fun hp => h.2 hp.2⟩⟩

theorem erases_each {starts : List Name} (hne : ∀ start ∈ starts, start ≠ [])
    (hnames : ∀ o ∈ w.ext, ∀ c ∈ o, isBlank c = false) : erases (forEach starts eraseMetadataObjects)
      (fun y => ∀ o, o ∈ y ↔ o ∈ w.ext ∧ ∀ start ∈ starts, ¬ start <+: o) w := by
  induction starts generalizing w with
  | nil => exact fun o => by simp
  | cons start starts ih =>
    obtain ⟨hstart, hstarts⟩ := forall_mem_cons.mp hne
    apply wp_seq (erases_start hstart hnames)
    intro _ w' hext
    have hnames' : ∀ o ∈ w'.ext, ∀ c ∈ o, isBlank c = false := fun o ho => hnames o ((hext o).mp ho).1
    apply wp_result _ (ih hstarts hnames')
    intro _ w'' hy o
    rw [hy o, hext o, forall_mem_cons, and_assoc]

end Erasing

/-! ### Ranks -/

def OfRank (rank : Nat) (o : Name) : Prop :=
  (∃ suffix, o = hexNumeral (0x200 + rank) ++ '.' :: suffix) ∨
  (∃ suffix, o = hexNumeral (0x300 + rank) ++ '.' :: suffix) ∨
  (∃ suffix, o = hexNumeral (0x400 + rank) ++ '.' :: suffix) ∨
  ∃ suffix, o = "mds".toList ++ numeral rank ++ '_' :: suffix

def starts (rank : Nat) : List Name :=
  [objPrefix rank 2, objPrefix rank 3, objPrefix rank 4, tablePrefix rank]

theorem append_singleton_prefix {xs text : Name} {c : Char} :
    xs ++ [c] <+: text ↔ ∃ suffix, text = xs ++ c :: suffix := by
  constructor
  all_goals
    rintro ⟨suffix, rfl⟩
    exact ⟨suffix, by rw [append_assoc, singleton_append]⟩

variable {o : Name} {rank rank' : Nat}

theorem ofRank_iff : OfRank rank o ↔ ∃ start ∈ starts rank, start <+: o := by
  simp only [starts, exists_mem_cons_iff, not_mem_nil, false_and, exists_false, or_false,
    objPrefix, tablePrefix, append_singleton_prefix]
  rfl

theorem erases_rank {w : World sig Unit (Finset Name)} (rank : Nat)
    (hnames : ∀ o ∈ w.ext, ∀ c ∈ o, isBlank c = false) :
    erases (eraseMdsObjects rank) (fun y => ∀ o, o ∈ y ↔ o ∈ w.ext ∧ ¬ OfRank rank o) w := by
  have hcalls : eraseMdsObjects rank = forEach (starts rank) eraseMetadataObjects := by
    have hlast : (eraseMetadataObjects (tablePrefix rank) >>= fun _ => (.ret () : M Unit)) =
        eraseMetadataObjects (tablePrefix rank) := bind_pure_unit
    rw [eraseMdsObjects, starts, forEach, forEach, forEach, forEach, forEach, hlast]
  have hne : ∀ start ∈ starts rank, start ≠ [] := by simp [starts, objPrefix, tablePrefix]
  rw [hcalls]
  refine wp_result ?_ (erases_each hne hnames)
  intro _ w' hy o
  rw [hy o, ofRank_iff]
  simp

theorem objPrefix_eq {multiplier multiplier' : Nat} (hrank : rank < 0x100) (hrank' : rank' < 0x100)
    (h : objPrefix rank multiplier <+: o) (h' : objPrefix rank' multiplier' <+: o) : rank = rank' := by
  have hsum := hexNumeral_injective
    (TextLines.eq_of_prefix_sep (dot_notMem_hexNumeral _) (dot_notMem_hexNumeral _) h h')
  omega

theorem tablePrefix_eq (h : tablePrefix rank <+: o) (h' : tablePrefix rank' <+: o) : rank = rank' := by
  have hmark : ∀ n, '_' ∉ "mds".toList ++ numeral n := by
    intro n hmem
    rcases mem_append.mp hmem with hmem | hmem
    · revert hmem
      decide
    · exact Nat.underscore_not_in_toDigits hmem
  have hsame := TextLines.eq_of_prefix_sep (hmark rank) (hmark rank') h h'
  exact numeral_injective (append_cancel_left hsame)

theorem not_tablePrefix_of_objPrefix {multiplier : Nat} (h : objPrefix rank multiplier <+: o) :
    ¬ tablePrefix rank' <+: o := by
  rintro ⟨rest', rfl⟩
  obtain ⟨rest, hrest⟩ := h
  obtain ⟨c, digits, hdigits⟩ := exists_cons_of_ne_nil
    (Nat.toDigits_ne_nil (b := 16) (n := multiplier * 0x100 + rank))
  obtain ⟨d, hd⟩ := Numerals.exists_digitChar_of_mem (b := 16) (by decide)
    (hdigits ▸ (.head _) : c ∈ Nat.toDigits 16 (multiplier * 0x100 + rank))
  have hfirst : c = 'm' := by
    rw [objPrefix, hexNumeral, hdigits] at hrest
    exact (List.cons.inj hrest).1
  exact Nat.digitChar_ne 'm' (by decide) (hd.symm.trans hfirst)

theorem mem_starts {start : Name} (h : start ∈ starts rank) :
    (∃ multiplier, start = objPrefix rank multiplier) ∨ start = tablePrefix rank := by
  simp only [starts, mem_cons, not_mem_nil, or_false] at h
  rcases h with h | h | h | h
  · exact .inl ⟨2, h⟩
  · exact .inl ⟨3, h⟩
  · exact .inl ⟨4, h⟩
  · exact .inr h

theorem OfRank.eq (hrank : rank < 0x100) (hrank' : rank' < 0x100) (h : OfRank rank o)
    (h' : OfRank rank' o) :
    rank = rank' := by
  rw [ofRank_iff] at h h'
  obtain ⟨start, hstart, hprefix⟩ := h
  obtain ⟨start', hstart', hprefix'⟩ := h'
  rcases mem_starts hstart with ⟨m, rfl⟩ | rfl
  · rcases mem_starts hstart' with ⟨m', rfl⟩ | rfl
    · exact objPrefix_eq hrank hrank' hprefix hprefix'
    · exact absurd hprefix' (not_tablePrefix_of_objPrefix hprefix)
  · rcases mem_starts hstart' with ⟨m', rfl⟩ | rfl
    · exact absurd hprefix (not_tablePrefix_of_objPrefix hprefix')
    · exact tablePrefix_eq hprefix hprefix'

/-- **One rank.** Whatever the pool holds, `erase_mds_objects` returns and has removed the objects of this
rank and no others; every other rank keeps all that it has. -/
theorem erase_mds_objects_exact (pool : Finset Name) (hnames : ∀ o ∈ pool, ∀ c ∈ o, isBlank c = false)
    (rank : Nat) (hrank : rank < 256) :
    (∃ r w, Exec poolEnv (eraseMdsObjects rank) ⟨(), pool, []⟩ r w) ∧
    ∀ r w, Exec poolEnv (eraseMdsObjects rank) ⟨(), pool, []⟩ r w →
      r = .ret () ∧ w.ext ⊆ pool ∧ (∀ o ∈ pool, o ∉ w.ext ↔ OfRank rank o) ∧
        ∀ other < 256, other ≠ rank → ∀ o ∈ pool, OfRank other o → o ∈ w.ext := by
  refine ⟨exists_exec poolEnv_total _ _, fun r w hrun => ?_⟩
  have hend := wp_post (erases_rank (w := ⟨(), pool, []⟩) rank hnames) hrun
  cases r with
  | exn | cut => exact hend.elim
  | ret u =>
    have hleft : ∀ o, o ∈ w.ext ↔ o ∈ pool ∧ ¬ OfRank rank o := hend
    refine ⟨rfl, fun o ho => ((hleft o).mp ho).1, fun o ho => ?_, fun other hother hne o ho hof => ?_⟩
    · rw [hleft o, not_and, not_not]
      exact ⟨fun h => h ho, fun h _ => h⟩
    · exact (hleft o).mpr ⟨ho, fun h => hne (hof.eq hother hrank h)⟩

def threeObjects : Finset Name :=
  {"201.00000000".toList, "211.00000000".toList, "mds10_inotable".toList}

theorem erase_mds_objects_exact_one :
    ∃ r w, Exec poolEnv (eraseMdsObjects 1) ⟨(), threeObjects, []⟩ r w ∧
      "211.00000000".toList ∈ w.ext ∧ "mds10_inotable".toList ∈ w.ext ∧ "201.00000000".toList ∉ w.ext := by
  have hall : ∀ o ∈ threeObjects, (o.all fun c => !isBlank c) = true := by decide
  have hnames : ∀ o ∈ threeObjects, ∀ c ∈ o, isBlank c = false := by
    intro o ho c hc
    simpa using all_eq_true.mp (hall o ho) c hc
  obtain ⟨⟨r, w, hrun⟩, hall⟩ := erase_mds_objects_exact threeObjects hnames 1 (by decide)
  obtain ⟨-, -, hremoved, hkept⟩ := hall r w hrun
  refine ⟨r, w, hrun, ?_, ?_, ?_⟩
  · exact hkept 17 (by decide) (by decide) _ (by decide) (.inl ⟨"00000000".toList, by decide⟩)
  · exact hkept 10 (by decide) (by decide) _ (by decide)
      (.inr (.inr (.inr ⟨"inotable".toList, by decide⟩)))
  · exact (hremoved _ (by decide)).mpr (.inl ⟨"00000000".toList, by decide⟩)

end ZbkcTasks.FsObjects

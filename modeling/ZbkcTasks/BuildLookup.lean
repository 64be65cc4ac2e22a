import ZbkcTasks.BuildPackages

/-! What `lookup_configs` finds and what it leaves alone. `deep_merge` may do anything to the tree that it
merges into, and nothing to other objects; `apply_overrides` hands it a copy. -/

namespace ZbkcTasks.BuildPackages

open List Option Prog PyHeap

abbrev W := World sig PyHeap Unit

/-! ### Merging -/

def Later (h h' : PyHeap) : Prop :=
  ∀ r items, itemsAt h r = some items → ∃ items', itemsAt h' r = some items'

/-- What merging `b` into `a` may do: it writes to objects of the tree `a` only, if `b` does not lead
there. -/
structure Merged (h h' : PyHeap) (a b : PyRef) : Prop where
  frame : ∀ n cs, IsTree h n a cs → (∀ i ∈ cs, ¬ Reaches h b i) →
    ∀ (i : Nat) (o : PyObj), h[i]? = some o → i ∉ cs → h'[i]? = some o
  later : Later h h'

def env (mayRaise : Prop) : Env sig PyHeap Unit
  | .deepMerge a b, h, _, ans, h', _ => Merged h h' a b ∧ ∀ e, ans = .error e → mayRaise

theorem Later.refl (h : PyHeap) : Later h h := fun _ items hitems => ⟨items, hitems⟩

variable {h' h : PyHeap} {key : PyAtom} {overrides config v roleConfig d : PyRef} {rs : List PyRef}
  {kind : Kind}

theorem Later.trans {h'' : PyHeap} (h1 : Later h h') (h2 : Later h' h'') : Later h h'' := by
  intro r items hitems
  obtain ⟨items', hitems'⟩ := h1 r items hitems
  exact h2 r items' hitems'

theorem later_of_extends (hext : Extends h h') : Later h h' :=
  fun _ items hitems => ⟨items, hext.itemsAt hitems⟩

theorem Merged.refl (h : PyHeap) (a b : PyRef) : Merged h h a b :=
  ⟨fun _ _ _ _ _ _ ho _ => ho, .refl h⟩

theorem env_total (mayRaise : Prop) (o : Op) (h : PyHeap) (x : Unit) :
    ∃ (ans : Except PyError Unit) (h' : PyHeap) (x' : Unit), env mayRaise o h x ans h' x' := by
  cases o with
  | deepMerge a b => exact ⟨.ok (), h, (), .refl h a b, fun e he => by cases he⟩

/-! ### Reading dictionaries -/

/-- The program ends with the objects of `h₀` as they were; it raises only if `fails` holds. -/
def Keeps {α : Type} (h₀ : PyHeap) (fails : Prop) (P : α → PyHeap → Prop) : Outcome PyError α → W → Prop
  | .ret a, w => Extends h₀ w.st ∧ P a w.st
  | .exn _, w => Extends h₀ w.st ∧ fails
  | .cut, _ => False

section Runs

variable {α β : Type} {mayRaise : Prop} {h₀ : PyHeap} {fails : Prop} {w : W} {E : Env sig PyHeap Unit}
  {P : α → PyHeap → Prop} {P' : β → PyHeap → Prop} {r : PyRef} {items : List (PyAtom × PyRef)} {n : Nat}
  {cs : List Nat}

abbrev ends (mayRaise : Prop) (p : M α) (Q : Outcome PyError α → W → Prop) (w : W) : Prop :=
  wp (env mayRaise) (fun _ _ _ => True) p Q w

/-- The same for a way `E` to merge. -/
abbrev serves (E : Env sig PyHeap Unit) (p : M α) (Q : Outcome PyError α → W → Prop) (w : W) : Prop :=
  wp E (fun _ _ _ => True) p Q w

variable {p : M α} {f : α → M β} {project : PyRef}

theorem keeps_bind {A : Op → PyHeap → Unit → Prop} (hp : wp E A p (Keeps h₀ fails P) w)
    (hf : ∀ a w', Extends h₀ w'.st → P a w'.st → wp E A (f a) (Keeps h₀ fails P') w') :
    wp E A (p >>= f) (Keeps h₀ fails P') w := by
  refine wp_bind.mpr (wp_mono ?_ hp)
  rintro (a | e | _) w' h'
  · exact hf a w' h'.1 h'.2
  · exact h'
  · exact h'

theorem ends_bind (hp : ends mayRaise p (Keeps h₀ fails P) w)
    (hf : ∀ a w', Extends h₀ w'.st → P a w'.st → ends mayRaise (f a) (Keeps h₀ fails P') w') :
    ends mayRaise (p >>= f) (Keeps h₀ fails P') w :=
  keeps_bind hp hf

theorem ends_mono {P P' : α → PyHeap → Prop} (hP : ∀ a h, P a h → P' a h)
    (hp : ends mayRaise p (Keeps h₀ fails P) w) : ends mayRaise p (Keeps h₀ fails P') w := by
  refine wp_mono ?_ hp
  rintro (a | e | _) w' h'
  · exact ⟨h'.1, hP a w'.st h'.2⟩
  · exact h'
  · exact h'

theorem ends_itemsOf (method : String) (hext : Extends h₀ w.st) (hr : Valid w.st r)
    (hdict : ¬ fails → itemsAt w.st r ≠ none) : ends mayRaise (itemsOf method r)
      (Keeps h₀ fails fun items h => h = w.st ∧ itemsAt w.st r = some items) w := by
  have hfails : itemsAt w.st r = none → fails := fun hnone => by_contra fun hf => hdict hf hnone
  cases r with
  | atom a => exact ⟨hext, hfails rfl⟩
  | obj i =>
    obtain ⟨o, ho⟩ := hr i rfl
    refine wp_bind.mpr (wp_load ho ?_)
    cases o with
    | dict items => exact ⟨hext, rfl, itemsAt_eq_some.mpr ⟨i, rfl, ho⟩⟩
    | list xs => exact ⟨hext, hfails (by rw [itemsAt, ho]; rfl)⟩

theorem ends_get (key : PyAtom) (default : PyRef) (hext : Extends h₀ w.st) (hd : Valid w.st d)
    (hdict : ¬ fails → itemsAt w.st d ≠ none) : ends mayRaise (get d key default)
      (Keeps h₀ fails fun v h => h = w.st ∧
        ∃ items, itemsAt w.st d = some items ∧ v = (items.lookup key).getD default) w := by
  apply ends_bind (ends_itemsOf "get" hext hd hdict)
  rintro items w' hext' ⟨hst, hitems⟩
  exact ⟨hext', hst, items, hitems, rfl⟩

theorem ends_getOrEmpty {key : PyRef} (hext : Extends h₀ w.st) (hd : Valid w.st d)
    (hdict : ¬ fails → itemsAt w.st d ≠ none) (hkey : ¬ fails → ∀ i, key ≠ .obj i) :
    ends mayRaise (getOrEmpty d key)
      (Keeps h₀ fails fun v h => h = w.st ++ [.dict []] ∧ ∃ items k, itemsAt w.st d = some items ∧
        v = (items.lookup k).getD (.obj w.st.length) ∧ key = .atom k) w := by
  apply ends_bind (ends_itemsOf "get" hext hd hdict)
  rintro items w' hext' ⟨hst, hitems⟩
  have hnew : Extends h₀ (w'.st ++ [.dict []]) := hext'.trans (extends_append _ _)
  cases key with
  | atom k => exact ⟨hnew, by rw [hst], items, k, hitems, by rw [hst], rfl⟩
  | obj i => exact ⟨hnew, by_contra fun hf => hkey hf i rfl⟩

theorem ends_isDict (hext : Extends h₀ w.st) (hr : Valid w.st r) :
    ends mayRaise (isDict r) (Keeps h₀ fails fun b h => h = w.st ∧ b = (itemsAt w.st r).isSome) w := by
  cases r with
  | atom a => exact ⟨hext, rfl, rfl⟩
  | obj i =>
    obtain ⟨o, ho⟩ := hr i rfl
    refine wp_bind.mpr (wp_load ho ?_)
    cases o with
    | dict | list => exact ⟨hext, rfl, by rw [itemsAt, ho]; rfl⟩

def truthyAt (h : PyHeap) : PyRef → Bool
  | .atom a => a.truthy
  | .obj i => h[i]?.elim false fun o => !o.refs.isEmpty

theorem ends_truthy (hext : Extends h₀ w.st) (hr : Valid h₀ r) :
    ends mayRaise (truthy r) (Keeps h₀ fails fun b h => h = w.st ∧ b = truthyAt h₀ r) w := by
  cases r with
  | atom a => exact ⟨hext, rfl, rfl⟩
  | obj i =>
    obtain ⟨o, ho⟩ := hr i rfl
    refine wp_bind.mpr (wp_load (hext i o ho) ?_)
    exact ⟨hext, rfl, by rw [truthyAt, ho]; rfl⟩

/-! ### The overrides -/

/-- The overrides in `ctx.config` are dictionaries, as far as the task looks into them. -/
def Usable (h : PyHeap) (ctx : PyRef) : Prop :=
  ∃ items, itemsAt h ctx = some items ∧
    ∀ overrides, items.lookup (.str "overrides") = some overrides → truthyAt h overrides = true →
      ∃ inner, itemsAt h overrides = some inner ∧
        ∀ install, inner.lookup (.str "install") = some install → itemsAt h install ≠ none

/-- The configuration of an installation: nothing, or a dictionary whose project can be a key. -/
def Shaped (h : PyHeap) (config : PyRef) : Prop :=
  config = pyNone ∨
    ∃ items, itemsAt h config = some items ∧ ∀ i, items.lookup (.str "project") ≠ some (.obj i)

theorem Shaped.extends (hext : Extends h h') (hshaped : Shaped h config) : Shaped h' config := by
  rcases hshaped with rfl | ⟨items, hitems, hproject⟩
  · exact .inl rfl
  · exact .inr ⟨items, hext.itemsAt hitems, hproject⟩

/-- From `h` to `h'`, the reference became the task's own version of the configuration. -/
structure Owned (h : PyHeap) (config : PyRef) (h' : PyHeap) (r : PyRef) : Prop where
  keeps : Extends h h'
  fresh : ∃ m cs, IsTree h' m r cs ∧ ∀ i ∈ cs, h.length ≤ i
  shaped : Shaped h config →
    ∃ items, itemsAt h' r = some items ∧ ∀ i, items.lookup (.str "project") ≠ some (.obj i)

theorem lookup_zip (hsame : SameAtoms (items.map Prod.snd) rs) (key : PyAtom) :
    (items.lookup key = none ∧ ((items.map Prod.fst).zip rs).lookup key = none) ∨
      ∃ v v', items.lookup key = some v ∧ ((items.map Prod.fst).zip rs).lookup key = some v' ∧
        ∀ a, v = .atom a → v' = .atom a := by
  induction items generalizing rs with
  | nil => exact .inl ⟨rfl, rfl⟩
  | cons item items ih =>
    obtain ⟨k, v⟩ := item
    cases hsame with
    | @cons _ v' _ rs' hatom hrest =>
      rw [map_cons, zip_cons_cons, lookup_cons, lookup_cons]
      cases hkey : key == k with
      | true => exact .inr ⟨v, v', rfl, rfl, hatom⟩
      | false => exact ih hrest

theorem lookup_zip_ne_obj (hsame : SameAtoms (items.map Prod.snd) rs)
    (hne : ∀ i, items.lookup key ≠ some (.obj i)) :
    ∀ i, ((items.map Prod.fst).zip rs).lookup key ≠ some (.obj i) := by
  intro i hi
  rcases lookup_zip hsame key with ⟨-, hnone⟩ | ⟨v, v', hv, hv', hatom⟩
  · rw [hnone] at hi
    cases hi
  · cases v with
    | atom a =>
      rw [hv', hatom a rfl] at hi
      cases hi
    | obj j => exact hne j hv

theorem Owned.of_none (h : PyHeap) : Owned h pyNone (h ++ [.dict []]) (.obj h.length) where
  keeps := extends_append h _
  fresh := by
    have hnew : (h ++ [PyObj.dict []])[h.length]? = some (.dict []) := by simp
    refine ⟨1, [h.length], ⟨cells_obj_eq_some.mpr ⟨_, [], hnew, rfl, rfl⟩, nodup_singleton _⟩, ?_⟩
    intro i hi
    rw [mem_singleton.mp hi]
  shaped _ := by
    have hnew : (h ++ [PyObj.dict []])[h.length]? = some (.dict []) := by simp
    exact ⟨[], itemsAt_eq_some.mpr ⟨_, rfl, hnew⟩, by simp⟩

theorem Owned.of_copied {r : PyRef} (hne : config ≠ pyNone) (hcopied : Copied h n config h' r) :
    Owned h config h' r where
  keeps := hcopied.keeps
  fresh := ⟨n, hcopied.fresh⟩
  shaped hshaped := by
    rcases hshaped with rfl | ⟨items, hitems, hproject⟩
    · exact absurd rfl hne
    · obtain ⟨i, rfl, ho⟩ := itemsAt_eq_some.mp hitems
      obtain ⟨j, rs, rfl, hj, hsame⟩ := hcopied.obj i _ rfl ho
      exact ⟨_, itemsAt_eq_some.mpr ⟨j, rfl, hj⟩, lookup_zip_ne_obj hsame hproject⟩

theorem Owned.project_ne_obj {r : PyRef} (howned : Owned h config h' r) (hshaped : Shaped h config)
    (hitems : itemsAt h' r = some items) (i : Nat) :
    (items.lookup (.str "project")).getD (str "zbkc") ≠ .obj i := by
  obtain ⟨items', hitems', hne⟩ := howned.shaped hshaped
  rw [hitems] at hitems'
  obtain rfl := some.inj hitems'
  cases hlookup : items.lookup (.str "project") with
  | none => exact fun heq => by cases heq
  | some v =>
    rintro rfl
    exact hne i hlookup

theorem ends_ownConfig (hext : Extends h₀ w.st) (hcells : cells w.st n config = some cs) :
    ends mayRaise (ownConfig n config) (Keeps h₀ fails fun r h => Owned w.st config h r ∧
        (config ≠ pyNone → Copied w.st n config h r)) w := by
  rw [ownConfig]
  split
  next hnone =>
    rw [hnone]
    exact ⟨hext.trans (extends_append _ _), .of_none w.st, fun hne => absurd rfl hne⟩
  next hsome =>
    refine wp_mono ?_ (wp_deepcopy hcells)
    rintro (r | e | _) w' h'
    · exact ⟨hext.trans h'.keeps, .of_copied hsome h', fun _ => h'⟩
    · exact h'.elim
    · exact h'.elim

/-- What is assumed of the start: the heap `h₀` with `ctx.config` in it, and when the task may raise. -/
structure Setting (mayRaise : Prop) (h₀ : PyHeap) (ctx : PyRef) (fails : Prop) : Prop where
  closed : Closed h₀
  ctx_valid : Valid h₀ ctx
  raises : mayRaise → fails
  usable : ¬ fails → Usable h₀ ctx

variable {ctx : PyRef}

theorem ends_deepMerge (hset : Setting mayRaise h₀ ctx fails) {b : PyRef} {k : Nat} (hext : Extends h₀ w.st)
    (hfresh : ∃ m cs, IsTree w.st m config cs ∧ ∀ i ∈ cs, h₀.length ≤ i ∧ i < k)
    (hb : Valid h₀ b ∨ ∃ j, k ≤ j ∧ b = .obj j ∧ w.st[j]? = some (.dict [])) :
    ends mayRaise (.op (.deepMerge config b) orThrow : M Unit)
      (Keeps h₀ fails fun _ h => Later w.st h) w := by
  obtain ⟨m, cs, htree, hcs⟩ := hfresh
  have hapart : ∀ i ∈ cs, ¬ Reaches w.st b i := by
    intro i hi hreach
    have hbounds := hcs i hi
    rcases hb with hb | ⟨j, hj, rfl, ho⟩
    · have := hreach.lt hset.closed hext hb
      omega
    · cases hreach with
      | here => omega
      | deeper ho' hmem _ =>
        rw [ho] at ho'
        cases ho'
        cases hmem
  refine ⟨trivial, fun ans h' x hmerged => ?_⟩
  obtain ⟨hmerged, hraise⟩ := hmerged
  have hkeep : Extends h₀ h' := by
    intro i o ho
    apply hmerged.frame m cs htree hapart i o (hext i o ho)
    intro hi
    have := hcs i hi
    have := (List.getElem?_eq_some_iff.mp ho).1
    omega
  cases ans with
  | ok _ => exact ⟨hkeep, hmerged.later⟩
  | error e => exact ⟨hkeep, hset.raises (hraise e rfl)⟩

theorem valid_or_default (hset : Setting mayRaise h₀ ctx fails) {default : PyRef} (hext : Extends h₀ h)
    (hd : Valid h₀ d ∨ itemsAt h d = some []) (hitems : itemsAt h d = some items)
    (hv : v = (items.lookup key).getD default) : Valid h₀ v ∨ v = default := by
  cases hlookup : items.lookup key with
  | none =>
    rw [hlookup, getD_none] at hv
    exact .inr hv
  | some u =>
    rw [hlookup, getD_some] at hv
    rcases hd with hd | hempty
    · rw [hext.itemsAt_eq hd] at hitems
      rw [hv]
      exact .inl (hset.closed.valid_lookup hitems hlookup)
    · rw [hempty] at hitems
      cases hitems
      cases hlookup

def overridesIn (h : PyHeap) (overrides : PyRef) (project : PyAtom) : List (PyAtom × PyRef) :=
  ((child h overrides (.key "install")).bind fun install =>
    (child h install (.key project)).bind (itemsAt h)).getD []

inductive Given (h₀ : PyHeap) (d : PyRef) (key : PyAtom) (h : PyHeap) (v : PyRef) : Prop
  | found : child h₀ d (.key key) = some v → Valid h₀ v → Given h₀ d key h v
  | missing : child h₀ d (.key key) = none → itemsAt h v = some [] → Given h₀ d key h v

theorem Given.valid (hgiven : Given h₀ d key h v) (hext : Extends h₀ h) : Valid h v := by
  cases hgiven with
  | found _ hvalid => exact hext.valid hvalid
  | missing _ hempty => exact valid_of_itemsAt hempty

theorem Given.there (hgiven : Given h₀ d key h v) : Valid h₀ v ∨ itemsAt h v = some [] := by
  cases hgiven with
  | found _ hvalid => exact .inl hvalid
  | missing _ hempty => exact .inr hempty

theorem child_key (hitems : itemsAt h d = some items) (key : PyAtom) :
    child h d (.key key) = items.lookup key := by
  rw [child, hitems, bind_some]

theorem given_of_lookup (hset : Setting mayRaise h₀ ctx fails) (hitems : itemsAt h₀ d = some items)
    (hv : v = (items.lookup key).getD (.obj h.length)) : Given h₀ d key (h ++ [.dict []]) v := by
  cases hlookup : items.lookup key with
  | none =>
    rw [hlookup, getD_none] at hv
    rw [hv]
    exact .missing ((child_key hitems key).trans hlookup) (itemsAt_eq_some.mpr ⟨_, rfl, by simp⟩)
  | some u =>
    rw [hlookup, getD_some] at hv
    rw [hv]
    exact .found ((child_key hitems key).trans hlookup) (hset.closed.valid_lookup hitems hlookup)

theorem ends_installOverrides (hset : Setting mayRaise h₀ ctx fails) (hext : Extends h₀ w.st)
    (hoverrides : Valid h₀ overrides) (hgood : ¬ fails → ∃ inner, itemsAt h₀ overrides = some inner ∧
      ∀ install, inner.lookup (.str "install") = some install → itemsAt h₀ install ≠ none) :
    ends mayRaise (getOrEmpty overrides (str "install"))
      (Keeps h₀ fails fun v h => Extends w.st h ∧ Given h₀ overrides "install" h v ∧
        (¬ fails → itemsAt h v ≠ none)) w := by
  have hitems0 := hext.itemsAt_eq hoverrides
  have hdict : ¬ fails → itemsAt w.st overrides ≠ none := by
    intro hf
    obtain ⟨inner, hinner, -⟩ := hgood hf
    rw [hitems0, hinner]
    exact some_ne_none inner
  refine wp_mono ?_ (ends_getOrEmpty hext (hext.valid hoverrides) hdict fun _ i heq => by cases heq)
  rintro (v | e | _) w1 hend
  · obtain ⟨hext1, hst1, items, k, hitems, hv, hk⟩ := hend
    cases hk
    rw [hitems0] at hitems
    have hgiven : Given h₀ overrides "install" w1.st v := by
      rw [hst1]
      exact given_of_lookup hset hitems hv
    refine ⟨hext1, ?_, hgiven, ?_⟩
    · rw [hst1]
      exact extends_append _ _
    · intro hf
      obtain ⟨inner, hinner, hinstalls⟩ := hgood hf
      cases hgiven with
      | found hchild hvalid =>
        rw [hext1.itemsAt_eq hvalid]
        exact hinstalls v ((child_key hinner _).symm.trans hchild)
      | missing _ hempty => simp [hempty]
  · exact hend
  · exact hend

theorem Given.overridesIn_eq (hset : Setting mayRaise h₀ ctx fails) {install b : PyRef} {project : PyAtom}
    (hext : Extends h₀ h) (hgiven : Given h₀ overrides "install" h install)
    (hitems : itemsAt h install = some items) (hb : b = (items.lookup project).getD (.obj h.length)) :
    (itemsAt (h ++ [.dict []]) b).getD [] = overridesIn h₀ overrides project := by
  have hext' : Extends h₀ (h ++ [.dict []]) := hext.trans (extends_append _ _)
  cases hgiven with
  | found hchild hvalid =>
    rw [hext.itemsAt_eq hvalid] at hitems
    rw [overridesIn, hchild, bind_some]
    cases given_of_lookup hset hitems hb with
    | found hchild' hvalid' => rw [hchild', bind_some, hext'.itemsAt_eq hvalid']
    | missing hchild' hempty => rw [hchild', bind_none, hempty, getD_some, getD_none]
  | missing hchild hempty =>
    rw [hempty] at hitems
    cases hitems
    have hnew : itemsAt (h ++ [.dict []]) b = some [] := by
      rw [hb]
      exact itemsAt_eq_some.mpr ⟨_, rfl, by simp⟩
    rw [overridesIn, hchild, bind_none, hnew, getD_some, getD_none]

/-- Merging the overrides: it is left to show what merging them into the tree of new objects does. -/
theorem keeps_mergeOverrides (hE : ∀ o s x a s' x', E o s x a s' x' → env mayRaise o s x a s' x')
    (hset : Setting mayRaise h₀ ctx fails) (hext : Extends h₀ w.st) (hoverrides : Valid h₀ overrides)
    (hfresh : ∃ m cs, IsTree w.st m config cs ∧ ∀ i ∈ cs, h₀.length ≤ i)
    (hproject : ¬ fails → ∀ i, project ≠ .obj i)
    (hgood : ¬ fails → ∃ inner, itemsAt h₀ overrides = some inner ∧
      ∀ install, inner.lookup (.str "install") = some install → itemsAt h₀ install ≠ none)
    {P : Unit → PyHeap → Prop} (hmerge : ∀ b k (w' : W), Extends h₀ w'.st → Extends w.st w'.st →
      (∃ m cs, IsTree w'.st m config cs ∧ ∀ i ∈ cs, h₀.length ≤ i ∧ i < k) →
      (Valid h₀ b ∨ ∃ j, k ≤ j ∧ b = .obj j ∧ w'.st[j]? = some (.dict [])) →
      (∀ key, project = .atom key → (itemsAt w'.st b).getD [] = overridesIn h₀ overrides key) →
      wp E (fun _ _ _ => True) (.op (.deepMerge config b) orThrow : M Unit) (Keeps h₀ fails P) w') :
    wp E (fun _ _ _ => True) (mergeOverrides overrides config project) (Keeps h₀ fails P) w := by
  apply keeps_bind (wp_env_mono hE (ends_installOverrides hset hext hoverrides hgood))
  rintro installOverrides w1 hext1 ⟨hgrown1, hgiven, hdict⟩
  apply keeps_bind (wp_env_mono hE (ends_getOrEmpty hext1 (hgiven.valid hext1) hdict hproject))
  rintro b w2 hext2 ⟨hst2, items, k, hitems, hb, hk⟩
  have hgrown : Extends w.st w2.st := by
    rw [hst2]
    exact hgrown1.trans (extends_append _ _)
  apply hmerge b w1.st.length w2 hext2 hgrown
  · obtain ⟨m, cs, htree, hcs⟩ := hfresh
    refine ⟨m, cs, ⟨hgrown.cells htree.cells_eq, htree.nodup⟩, fun i hi => ⟨hcs i hi, ?_⟩⟩
    exact (lt_of_cells htree.cells_eq i hi).trans_le hgrown1.length_le
  · rcases valid_or_default hset hext1 hgiven.there hitems hb with hvalid | rfl
    · exact .inl hvalid
    · exact .inr ⟨_, le_rfl, rfl, by simp [hst2]⟩
  · rintro key rfl
    cases hk
    rw [hst2]
    exact hgiven.overridesIn_eq hset hext1 hitems hb

theorem ends_mergeOverrides (hset : Setting mayRaise h₀ ctx fails) (hext : Extends h₀ w.st)
    (hoverrides : Valid h₀ overrides) (hfresh : ∃ m cs, IsTree w.st m config cs ∧ ∀ i ∈ cs, h₀.length ≤ i)
    (hproject : ¬ fails → ∀ i, project ≠ .obj i)
    (hgood : ¬ fails → ∃ inner, itemsAt h₀ overrides = some inner ∧
      ∀ install, inner.lookup (.str "install") = some install → itemsAt h₀ install ≠ none) :
    ends mayRaise (mergeOverrides overrides config project) (Keeps h₀ fails fun _ h => Later w.st h) w := by
  apply keeps_mergeOverrides (fun _ _ _ _ _ _ hmerged => hmerged) hset hext hoverrides hfresh hproject hgood
  intro b k w' hext' hgrown hfresh' hb _
  apply ends_mono _ (ends_deepMerge hset hext' hfresh' hb)
  intro _ h hlater
  exact (later_of_extends hgrown).trans hlater

theorem valid_overrides (hset : Setting mayRaise h₀ ctx fails) (hitems : itemsAt h₀ ctx = some items) :
    Valid h₀ ((items.lookup (.str "overrides")).getD pyNone) := by
  rcases valid_or_default hset (.refl h₀) (.inl hset.ctx_valid) hitems rfl with hvalid | heq
  · exact hvalid
  · rw [heq]
    exact valid_atom h₀ _

theorem usable_overrides (hset : Setting mayRaise h₀ ctx fails) (hitems : itemsAt h₀ ctx = some items)
    (hgiven : truthyAt h₀ ((items.lookup (.str "overrides")).getD pyNone) = true) (hf : ¬ fails) :
    ∃ inner, itemsAt h₀ ((items.lookup (.str "overrides")).getD pyNone) = some inner ∧
      ∀ install, inner.lookup (.str "install") = some install → itemsAt h₀ install ≠ none := by
  obtain ⟨items', hitems', husable⟩ := hset.usable hf
  rw [hitems] at hitems'
  obtain rfl := some.inj hitems'
  cases hlookup : items.lookup (.str "overrides") with
  | none =>
    rw [hlookup] at hgiven
    cases hgiven
  | some overrides =>
    rw [hlookup] at hgiven
    exact husable overrides hlookup hgiven

/-- Applying the overrides: it is left to show what holds of the copy, and what merging into it does. -/
theorem keeps_applyOverrides (hE : ∀ o s x a s' x', E o s x a s' x' → env mayRaise o s x a s' x')
    (hset : Setting mayRaise h₀ ctx fails) (hext : Extends h₀ w.st) (hcells : cells w.st n config = some cs)
    (hshaped : ¬ fails → Shaped w.st config) {P : PyRef → PyHeap → Prop}
    (hplain : ∀ own (w' : W) items, Owned w.st config w'.st own →
      (config ≠ pyNone → Copied w.st n config w'.st own) → itemsAt w'.st own = some items →
      truthyAt h₀ ((child h₀ ctx (.key "overrides")).getD pyNone) = false → P own w'.st)
    (hmerge : ∀ own (w' : W) items citems, Extends h₀ w'.st → Owned w.st config w'.st own →
      (config ≠ pyNone → Copied w.st n config w'.st own) → itemsAt w'.st own = some items →
      itemsAt h₀ ctx = some citems →
      truthyAt h₀ ((citems.lookup (.str "overrides")).getD pyNone) = true → wp E (fun _ _ _ => True)
        (mergeOverrides ((citems.lookup (.str "overrides")).getD pyNone) own
          ((items.lookup (.str "project")).getD (str "zbkc"))) (Keeps h₀ fails fun _ h => P own h) w') :
    wp E (fun _ _ _ => True) (applyOverrides ctx n config) (Keeps h₀ fails P) w := by
  apply keeps_bind (wp_env_mono hE (ends_ownConfig hext hcells))
  rintro own w1 hext1 ⟨howned, hcopied⟩
  obtain ⟨m, cs1, htree, -⟩ := howned.fresh
  apply keeps_bind (wp_env_mono hE (ends_isDict hext1 (valid_of_cells htree.cells_eq)))
  rintro b w2 hext2 ⟨hst2, rfl⟩
  cases hown : itemsAt w1.st own with
  | none =>
    refine ⟨hext2, by_contra fun hf => ?_⟩
    obtain ⟨items, hitems, -⟩ := howned.shaped (hshaped hf)
    rw [hown] at hitems
    cases hitems
  | some items =>
    rw [isSome_some, pyAssert, if_pos rfl, ret_bind]
    rw [← hst2] at hown howned hcopied
    have hsome : ¬ fails → itemsAt w2.st own ≠ none := fun _ => by simp [hown]
    apply keeps_bind (wp_env_mono hE
      (ends_get "project" (str "zbkc") hext2 (valid_of_itemsAt hown) hsome))
    rintro project w3 hext3 ⟨hst3, items', hitems', rfl⟩
    rw [hown] at hitems'
    obtain rfl := some.inj hitems'
    have hctx := hext3.itemsAt_eq hset.ctx_valid
    have hdict : ¬ fails → itemsAt w3.st ctx ≠ none := by
      intro hf
      obtain ⟨citems, hcitems, -⟩ := hset.usable hf
      rw [hctx, hcitems]
      exact some_ne_none _
    apply keeps_bind (wp_env_mono hE
      (ends_get "overrides" pyNone hext3 (hext3.valid hset.ctx_valid) hdict))
    rintro overrides w4 hext4 ⟨hst4, citems, hcitems, hoverrides⟩
    rw [hctx] at hcitems
    have hvalid : Valid h₀ overrides := by
      rw [hoverrides]
      exact valid_overrides hset hcitems
    apply keeps_bind (wp_env_mono hE (ends_truthy hext4 hvalid))
    rintro given w5 hext5 ⟨hst5, rfl⟩
    have hst : w5.st = w2.st := by rw [hst5, hst4, hst3]
    rw [← hst] at howned hcopied hown
    have hend : wp E (fun _ _ _ => True) (onlyIf (truthyAt h₀ overrides = true)
        (mergeOverrides overrides own ((items.lookup (.str "project")).getD (str "zbkc"))))
        (Keeps h₀ fails fun _ h => P own h) w5 := by
      rw [onlyIf]
      split
      next hgiven =>
        rw [hoverrides] at hgiven ⊢
        exact hmerge own w5 items citems hext5 howned hcopied hown hcitems hgiven
      next hnot =>
        rw [hoverrides, Bool.not_eq_true, ← child_key hcitems] at hnot
        exact ⟨hext5, hplain own w5 items howned hcopied hown hnot⟩
    apply keeps_bind hend
    intro _ w6 hext6 hP
    exact ⟨hext6, hP⟩

/-- **Overrides.** Applying them gives a dictionary, and what was there stays as it was. -/
theorem ends_applyOverrides (hset : Setting mayRaise h₀ ctx fails) (hext : Extends h₀ w.st)
    (hcells : cells w.st n config = some cs) (hshaped : ¬ fails → Shaped w.st config) :
    ends mayRaise (applyOverrides ctx n config)
      (Keeps h₀ fails fun o h => Later w.st h ∧ ∃ items, itemsAt h o = some items) w := by
  apply keeps_applyOverrides (fun _ _ _ _ _ _ hmerged => hmerged) hset hext hcells hshaped
  · intro own w' items howned _ hitems _
    exact ⟨later_of_extends howned.keeps, items, hitems⟩
  · intro own w' items citems hext' howned _ hitems hcitems hgiven
    obtain ⟨m, cs', htree, hcs⟩ := howned.fresh
    have hfresh : ∀ i ∈ cs', h₀.length ≤ i := fun i hi => hext.length_le.trans (hcs i hi)
    apply ends_mono _ (ends_mergeOverrides hset hext' (valid_overrides hset hcitems) ⟨m, cs', htree, hfresh⟩
      (fun hf => howned.project_ne_obj (hshaped hf) hitems) (usable_overrides hset hcitems hgiven))
    intro _ h hlater
    exact ⟨(later_of_extends howned.keeps).trans hlater, hlater own items hitems⟩

/-! ### The configurations -/

structure Readable (h₀ : PyHeap) (fails : Prop) (h : PyHeap) (d : PyRef) : Prop where
  there : Valid h₀ d ∨ ∃ items, itemsAt h d = some items
  dict : ¬ fails → ∃ items, itemsAt h d = some items

theorem readable_of_itemsAt (hd : ∃ items, itemsAt h d = some items) : Readable h₀ fails h d :=
  ⟨.inr hd, fun _ => hd⟩

theorem Readable.later (hd : Readable h₀ fails h d) (hlater : Later h h') : Readable h₀ fails h' d := by
  have hdict : (∃ items, itemsAt h d = some items) → ∃ items, itemsAt h' d = some items :=
    fun ⟨items, hitems⟩ => hlater d items hitems
  exact ⟨hd.there.imp_right hdict, fun hf => hdict (hd.dict hf)⟩

theorem ends_get_readable (hd : Readable h₀ fails h d) (key : PyAtom) (default : PyRef)
    (hext : Extends h₀ w.st) (hst : w.st = h) :
    ends mayRaise (get d key default) (Keeps h₀ fails fun _ h' => h' = h) w := by
  subst hst
  have hvalid : Valid w.st d := by
    rcases hd.there with hvalid | ⟨items, hitems⟩
    · exact hext.valid hvalid
    · exact valid_of_itemsAt hitems
  have hdict : ¬ fails → itemsAt w.st d ≠ none := by
    intro hf
    obtain ⟨items, hitems⟩ := hd.dict hf
    rw [hitems]
    exact some_ne_none _
  exact ends_mono (fun _ _ hend => hend.1) (ends_get key default hext hvalid hdict)

theorem ends_getConfigInstall (hset : Setting mayRaise h₀ ctx fails) (hext : Extends h₀ w.st)
    (hcells : cells w.st n config = some cs) (hshaped : ¬ fails → Shaped w.st config) :
    ends mayRaise (getConfigInstall ctx n config)
      (Keeps h₀ fails fun configs _ => configs.length = 1) w := by
  apply ends_bind (ends_applyOverrides hset hext hcells hshaped)
  rintro o w1 hext1 ⟨-, hdict⟩
  have ho : Readable h₀ fails w1.st o := readable_of_itemsAt hdict
  apply ends_bind (ends_get_readable ho "flavor" (str "basic") hext1 rfl)
  intro flavor w2 hext2 hst2
  apply ends_bind (ends_get_readable ho "tag" (str "") hext2 hst2)
  intro tag w3 hext3 hst3
  apply ends_bind (ends_get_readable ho "branch" (str "") hext3 hst3)
  intro branch w4 hext4 hst4
  apply ends_bind (ends_get_readable ho "sha1" pyNone hext4 hst4)
  intro sha1 w5 hext5 _
  exact ⟨hext5, rfl⟩

theorem ends_givenOrEmpty (hn : 0 < n) (hext : Extends h₀ w.st) (hcells : cells h₀ n roleConfig = some cs)
    (hshaped : ¬ fails → Shaped h₀ roleConfig) : ends mayRaise (givenOrEmpty roleConfig)
      (Keeps h₀ fails fun r h => (∃ cs, cells h n r = some cs) ∧ (¬ fails → Shaped h r) ∧
        Readable h₀ fails h r) w := by
  rw [givenOrEmpty]
  split
  next =>
    have hnew : (w.st ++ [PyObj.dict []])[w.st.length]? = some (.dict []) := by simp
    have hitems : itemsAt (w.st ++ [PyObj.dict []]) (.obj w.st.length) = some [] :=
      itemsAt_eq_some.mpr ⟨_, rfl, hnew⟩
    obtain ⟨m, rfl⟩ := Nat.exists_eq_add_of_lt hn
    refine ⟨hext.trans (extends_append _ _), ⟨[w.st.length], ?_⟩, ?_, readable_of_itemsAt ⟨[], hitems⟩⟩
    · rw [Nat.zero_add]
      exact cells_obj_eq_some.mpr ⟨_, [], hnew, rfl, rfl⟩
    · exact fun _ => .inr ⟨[], hitems, by simp⟩
  next hne =>
    refine ⟨hext, ⟨cs, hext.cells hcells⟩, fun hf => (hshaped hf).extends hext,
      .inl (valid_of_cells hcells), fun hf => ?_⟩
    rcases hshaped hf with rfl | ⟨items, hitems, -⟩
    · exact absurd rfl hne
    · exact ⟨items, hext.itemsAt hitems⟩

theorem ends_upgradeRole (hset : Setting mayRaise h₀ ctx fails) (hn : 0 < n) (hext : Extends h₀ w.st)
    (hcells : cells h₀ n roleConfig = some cs) (hshaped : ¬ fails → Shaped h₀ roleConfig) :
    ends mayRaise (upgradeRole ctx n roleConfig) (Keeps h₀ fails fun _ _ => True) w := by
  apply ends_bind (ends_givenOrEmpty hn hext hcells hshaped)
  rintro roleConfig w1 hext1 ⟨⟨cs1, hcells1⟩, hshaped1, hrole1⟩
  apply ends_bind (ends_applyOverrides hset hext1 hcells1 hshaped1)
  rintro o w2 hext2 ⟨hlater, hdict⟩
  have ho : Readable h₀ fails w2.st o := readable_of_itemsAt hdict
  have hrole : Readable h₀ fails w2.st roleConfig := hrole1.later hlater
  have hboth : ∀ (key : PyAtom) default (w' : W), Extends h₀ w'.st → w'.st = w2.st →
      ends mayRaise (get o key default >>= get roleConfig key)
        (Keeps h₀ fails fun _ h => h = w2.st) w' := by
    intro key default w' hext' hst'
    apply ends_bind (ends_get_readable ho key default hext' hst')
    intro v w'' hext'' hst''
    exact ends_get_readable hrole key v hext'' hst''
  apply ends_bind (ends_get_readable ho "flavor" (str "basic") hext2 rfl)
  intro flavor w3 hext3 hst3
  apply ends_bind (hboth "tag" (str "") w3 hext3 hst3)
  intro tag w4 hext4 hst4
  apply ends_bind (hboth "branch" (str "") w4 hext4 hst4)
  intro branch w5 hext5 hst5
  apply ends_bind (hboth "sha1" pyNone w5 hext5 hst5)
  intro sha1 w6 hext6 _
  exact ⟨hext6, trivial⟩

theorem ends_upgradeRoles (hset : Setting mayRaise h₀ ctx fails) (hn : 0 < n) (hext : Extends h₀ w.st)
    (hcells : ∀ item ∈ items, ∃ cs, cells h₀ n item.2 = some cs)
    (hshaped : ¬ fails → ∀ item ∈ items, Shaped h₀ item.2) : ends mayRaise (upgradeRoles ctx n items)
      (Keeps h₀ fails fun configs _ => configs.length = items.length) w := by
  induction items generalizing w with
  | nil => exact ⟨hext, rfl⟩
  | cons item items ih =>
    obtain ⟨cs, hcs⟩ := hcells item (.head _)
    apply ends_bind (ends_upgradeRole hset hn hext hcs fun hf => hshaped hf item (.head _))
    intro config w1 hext1 _
    apply ends_bind (ih hext1 (fun item hitem => hcells item (.tail _ hitem))
      fun hf item hitem => hshaped hf item (.tail _ hitem))
    intro configs w2 hext2 hlength
    exact ⟨hext2, congrArg (· + 1) hlength⟩

def width (h : PyHeap) : Kind → PyRef → Nat
  | .install, _ => 1
  | .installUpgrade, v => (itemsAt h v).elim 0 List.length

def EntryShaped (h : PyHeap) : Kind → PyRef → Prop
  | .install, v => Shaped h v
  | .installUpgrade, v => ∃ items, itemsAt h v = some items ∧ ∀ item ∈ items, Shaped h item.2

/-- **One entry.** The function for an entry leaves what was there as it was, and raises only if it may. -/
theorem ends_getConfig (hset : Setting mayRaise h₀ ctx fails) (hext : Extends h₀ w.st)
    (hcells : cells h₀ n v = some cs) (hshaped : ¬ fails → EntryShaped h₀ kind v) :
    ends mayRaise (getConfig ctx n kind v)
      (Keeps h₀ fails fun configs _ => configs.length = width h₀ kind v) w := by
  cases kind with
  | install =>
    exact ends_getConfigInstall hset hext (hext.cells hcells) fun hf => (hshaped hf).extends hext
  | installUpgrade =>
    have hvalid := valid_of_cells hcells
    have hitems0 := hext.itemsAt_eq hvalid
    have hdict : ¬ fails → itemsAt w.st v ≠ none := by
      intro hf
      obtain ⟨items, hitems, -⟩ := hshaped hf
      rw [hitems0, hitems]
      exact some_ne_none _
    apply ends_bind (ends_itemsOf "iteritems" hext (hext.valid hvalid) hdict)
    rintro items w1 hext1 ⟨-, hitems⟩
    rw [hitems0] at hitems
    obtain ⟨i, rfl, ho⟩ := itemsAt_eq_some.mp hitems
    cases n with
    | zero => cases hcells
    | succ n =>
      obtain ⟨o, bs, ho', hbs, -⟩ := cells_obj_eq_some.mp hcells
      rw [ho] at ho'
      obtain rfl := some.inj ho'
      rw [width, hitems, elim_some]
      refine ends_upgradeRoles hset n.succ_pos hext1 ?_ ?_
      · intro item hitem
        obtain ⟨as, has⟩ := exists_of_gather hbs (mem_map_of_mem hitem)
        exact ⟨as, cells_succ has⟩
      · intro hf
        obtain ⟨items', hitems', hall⟩ := hshaped hf
        rw [hitems] at hitems'
        obtain rfl := some.inj hitems'
        exact hall

/-! ### The search -/

/-- The functions for the entries run one after the other, with the objects of `h₀` in place. -/
inductive Served (E : Env sig PyHeap Unit) (h₀ : PyHeap) (ctx : PyRef) :
    W → List Entry → List (List Config) → W → Prop
  | nil (w : W) : Served E h₀ ctx w [] [] w
  | cons {e es configs rs w w' w''} (n : Nat) : Extends h₀ w.st →
      Exec E (getConfig ctx n e.kind e.value) w (.ret configs) w' →
      configs.length = width h₀ e.kind e.value → Served E h₀ ctx w' es rs w'' →
      Served E h₀ ctx w (e :: es) (configs :: rs) w''

/-- The function for one of the entries raises, after those before it have returned. -/
def Raised (E : Env sig PyHeap Unit) (h₀ : PyHeap) (ctx : PyRef) (w : W) (es : List Entry) (x : PyError)
    (w' : W) : Prop :=
  ∃ before e after rs w₁ n, es = before ++ e :: after ∧ Served E h₀ ctx w before rs w₁ ∧
    Exec E (getConfig ctx n e.kind e.value) w₁ (.exn x) w'

def Finds (E : Env sig PyHeap Unit) (h₀ : PyHeap) (ctx : PyRef) (fails : Prop) (w : W) (es : List Entry) :
    Outcome PyError (List Config) → W → Prop
  | .ret configs, w' => Extends h₀ w'.st ∧ ∃ rs, configs = rs.flatten ∧ Served E h₀ ctx w es rs w'
  | .exn x, w' => Extends h₀ w'.st ∧ fails ∧ Raised E h₀ ctx w es x w'
  | .cut, _ => False

theorem Served.append {es es' : List Entry} {rs rs' : List (List Config)} {w w' w'' : W}
    (h : Served E h₀ ctx w es rs w') (h' : Served E h₀ ctx w' es' rs' w'') :
    Served E h₀ ctx w (es ++ es') (rs ++ rs') w'' := by
  induction h with
  | nil w => exact h'
  | cons n hext hrun hlength _ ih => exact .cons n hext hrun hlength (ih h')

theorem Served.under {es : List Entry} {rs : List (List Config)} {w w' : W} (step : Step)
    (h : Served E h₀ ctx w es rs w') : Served E h₀ ctx w (es.map (Entry.below step)) rs w' := by
  induction h with
  | nil w => exact .nil w
  | cons n hext hrun hlength _ ih => exact .cons n hext hrun hlength ih

theorem finds_below {es : List Entry} {step : Step} {r : Outcome PyError (List Config)} {w w' : W}
    (h : Finds E h₀ ctx fails w es r w') : Finds E h₀ ctx fails w (es.map (Entry.below step)) r w' := by
  cases r with
  | ret configs =>
    obtain ⟨hext, rs, hrs, hserved⟩ := h
    exact ⟨hext, rs, hrs, hserved.under step⟩
  | exn x =>
    obtain ⟨hext, hf, before, e, after, rs, w₁, n, rfl, hserved, hrun⟩ := h
    refine ⟨hext, hf, before.map (Entry.below step), e.below step, after.map (Entry.below step), rs, w₁, n,
      by simp, hserved.under step, hrun⟩
  | cut => exact h

theorem finds_collect {f : β → M (List Config)} {es : β → List Entry} {xs : List β}
    (hf : ∀ x ∈ xs, ∀ w, Extends h₀ w.st → serves E (f x) (Finds E h₀ ctx fails w (es x)) w)
    (hext : Extends h₀ w.st) :
    serves E (collect f xs) (Finds E h₀ ctx fails w (xs.flatMap es)) w := by
  induction xs generalizing w with
  | nil => exact ⟨hext, [], rfl, .nil w⟩
  | cons x xs ih =>
    rw [flatMap_cons]
    refine wp_bind.mpr (wp_mono ?_ (hf x (.head _) w hext))
    rintro (configs | e | _) w1 h1
    · obtain ⟨hext1, rs1, rfl, hserved1⟩ := h1
      refine wp_bind.mpr (wp_mono ?_ (ih (fun y hy => hf y (.tail _ hy)) hext1))
      rintro (configs | e | _) w2 h2
      · obtain ⟨hext2, rs2, rfl, hserved2⟩ := h2
        exact ⟨hext2, rs1 ++ rs2, flatten_append.symm, hserved1.append hserved2⟩
      · obtain ⟨hext2, hfails, before, entry, after, rs, w₁, n, hes, hserved, hrun⟩ := h2
        exact ⟨hext2, hfails, es x ++ before, entry, after, _, w₁, n, by rw [hes, append_assoc],
          hserved1.append hserved, hrun⟩
      · exact h2
    · obtain ⟨hext1, hfails, before, entry, after, rs, w₁, n, hes, hserved, hrun⟩ := h1
      exact ⟨hext1, hfails, before, entry, after ++ xs.flatMap es, rs, w₁, n,
        by rw [hes, append_assoc, cons_append], hserved, hrun⟩
    · exact h1

section Search

variable (hE : ∀ o s x a s' x', E o s x a s' x' → env mayRaise o s x a s' x')

include hE

theorem finds_getConfig (hset : Setting mayRaise h₀ ctx fails) (path : List Step) (hext : Extends h₀ w.st)
    (hcells : cells h₀ n v = some cs) (hshaped : ¬ fails → EntryShaped h₀ kind v) :
    serves E (getConfig ctx n kind v) (Finds E h₀ ctx fails w [⟨path, kind, v⟩]) w := by
  have hkeeps := wp_env_mono hE (ends_getConfig hset hext hcells hshaped)
  apply wp_iff_exec.mpr
  intro r w' hrun
  have hend := wp_post hkeeps hrun
  cases r with
  | ret configs => exact ⟨hend.1, [configs], by simp, .cons n hext hrun hend.2 (.nil w')⟩
  | exn e => exact ⟨hend.1, hend.2, [], _, [], [], w, n, rfl, .nil w, hrun⟩
  | cut => exact hend

theorem finds_lookupItem (hset : Setting mayRaise h₀ ctx fails) {item : PyAtom × PyRef}
    (hext : Extends h₀ w.st) (hcells : cells h₀ n item.2 = some cs)
    (hshaped : ¬ fails → ∀ e ∈ itemEntries (entries h₀ n) item, EntryShaped h₀ e.kind e.value)
    (hsub : (¬ fails → ∀ e ∈ entries h₀ n item.2, EntryShaped h₀ e.kind e.value) →
      serves E (lookupConfigs ctx n item.2) (Finds E h₀ ctx fails w (entries h₀ n item.2)) w) :
    serves E (lookupItem ctx n (lookupConfigs ctx n) item)
      (Finds E h₀ ctx fails w (itemEntries (entries h₀ n) item)) w := by
  rw [lookupItem, itemEntries] at *
  cases hkind : kindOf item.1 with
  | some kind =>
    rw [hkind] at hshaped
    exact finds_getConfig hE hset _ hext hcells fun hf => hshaped hf _ (mem_singleton_self _)
  | none =>
    rw [hkind, elim_none] at hshaped
    rw [elim_none, elim_none]
    split
    next => exact ⟨hext, [], rfl, .nil w⟩
    next hkey =>
      rw [if_neg hkey] at hshaped
      refine wp_mono (fun _ _ => finds_below) (hsub fun hf e he => ?_)
      exact hshaped hf (e.below (.key item.1)) (mem_map_of_mem he)

omit hE in
theorem collect_map {γ : Type} (f : β → M (List Config)) (g : γ → β) (xs : List γ) :
    collect f (xs.map g) = collect (fun x => f (g x)) xs := by
  induction xs with
  | nil => rfl
  | cons x xs ih => rw [map_cons, collect, ih, collect]

theorem finds_lookupConfigs (hset : Setting mayRaise h₀ ctx fails) (hcells : cells h₀ n r = some cs)
    (hshaped : ¬ fails → ∀ e ∈ entries h₀ n r, EntryShaped h₀ e.kind e.value) (hext : Extends h₀ w.st) :
    serves E (lookupConfigs ctx n r) (Finds E h₀ ctx fails w (entries h₀ n r)) w := by
  induction n generalizing r cs w with
  | zero =>
    cases r with
    | atom a => exact ⟨hext, [], rfl, .nil w⟩
    | obj i => cases hcells
  | succ n ih =>
    cases r with
    | atom a => exact ⟨hext, [], rfl, .nil w⟩
    | obj i =>
      obtain ⟨o, bs, ho, hbs, -⟩ := cells_obj_eq_some.mp hcells
      rw [entries, ho, elim_some] at hshaped ⊢
      refine wp_bind.mpr (wp_load (hext i o ho) ?_)
      cases o with
      | list xs =>
        show serves E (collect (lookupConfigs ctx n) xs) _ w
        have hsame := collect_map (lookupConfigs ctx n) Prod.fst xs.zipIdx
        rw [zipIdx_map_fst] at hsame
        rw [hsame]
        apply finds_collect _ hext
        intro x hx w' hext'
        obtain ⟨as, has⟩ := exists_of_gather hbs (fst_mem_of_mem_zipIdx hx)
        refine wp_mono (fun _ _ => finds_below) (ih has (fun hf e he => ?_) hext')
        exact hshaped hf (e.below (.index x.2))
          (mem_flatMap.mpr ⟨x, hx, mem_map_of_mem he⟩)
      | dict items =>
        apply finds_collect _ hext
        intro item hitem w' hext'
        obtain ⟨as, has⟩ := exists_of_gather hbs (mem_map_of_mem hitem)
        refine finds_lookupItem hE hset hext' has (fun hf e he => ?_) fun hsub => ih has hsub hext'
        exact hshaped hf e (mem_flatMap.mpr ⟨item, hitem, he⟩)

end Search

end Runs

/-! ### What the search finds -/

structure Listing (h : PyHeap) (root : PyRef) (es : List Entry) : Prop where
  distinct : (es.map Entry.path).Nodup
  all : ∀ e : Entry, e ∈ es ↔ EntryAt h root e.path e.kind e.value

/-- How a search may end, if `E` says what merging does: the objects are as they were, each entry is met
once, what is returned or raised is what the functions for the entries return or raise, and it returns if
merging does not raise and the configurations are dictionaries. -/
structure Searched (E : Env sig PyHeap Unit) (mayRaise : Prop) (h₀ : PyHeap) (ctx root : PyRef)
    (r : Outcome PyError (List Config)) (w : W) : Prop where
  untouched : Extends h₀ w.st
  finished : r ≠ .cut
  found : ∀ configs, r = .ret configs → ∃ es rs, Listing h₀ root es ∧ configs = rs.flatten ∧
    Served E h₀ ctx ⟨h₀, (), []⟩ es rs w
  raised : ∀ x, r = .exn x → ∃ es, Listing h₀ root es ∧ Raised E h₀ ctx ⟨h₀, (), []⟩ es x w
  returned : ¬ mayRaise → Usable h₀ ctx →
    (∀ path kind v, EntryAt h₀ root path kind v → EntryShaped h₀ kind v) → ∃ configs, r = .ret configs

/-- **Finding the installations**, for every tree, order of the dictionaries and way of merging. -/
theorem lookupConfigs_searched {h₀ : PyHeap} {ctx root : PyRef} {n : Nat} {cs : List Nat}
    (hclosed : Closed h₀) (hkeys : KeysNodup h₀) (hctx : Valid h₀ ctx) (htree : IsTree h₀ n root cs)
    {mayRaise : Prop} {E : Env sig PyHeap Unit}
    (hE : ∀ o s x a s' x', E o s x a s' x' → env mayRaise o s x a s' x')
    (htotal : ∀ o s x, ∃ a s' x', E o s x a s' x') :
    (∃ r w, Exec E (lookupConfigs ctx n root) ⟨h₀, (), []⟩ r w) ∧
      ∀ r w, Exec E (lookupConfigs ctx n root) ⟨h₀, (), []⟩ r w → Searched E mayRaise h₀ ctx root r w := by
  have hmem : ∀ e : Entry, e ∈ entries h₀ n root ↔ EntryAt h₀ root e.path e.kind e.value :=
    fun e => mem_entries hkeys htree.cells_eq
  have hlisting : Listing h₀ root (entries h₀ n root) := ⟨nodup_entries hkeys n root, hmem⟩
  let good := ¬ mayRaise ∧ Usable h₀ ctx ∧
    ∀ path kind v, EntryAt h₀ root path kind v → EntryShaped h₀ kind v
  have hset : Setting mayRaise h₀ ctx (¬ good) :=
    ⟨hclosed, hctx, fun hraise hgood => hgood.1 hraise, fun hgood => (not_not.mp hgood).2.1⟩
  have hshaped : ¬ ¬ good → ∀ e ∈ entries h₀ n root, EntryShaped h₀ e.kind e.value :=
    fun hgood e he => (not_not.mp hgood).2.2 e.path e.kind e.value ((hmem e).mp he)
  constructor
  · exact exists_exec htotal (lookupConfigs ctx n root) ⟨h₀, (), []⟩
  · intro r w hrun
    have hend := wp_post (finds_lookupConfigs hE hset htree.cells_eq hshaped (Extends.refl h₀)) hrun
    cases r with
    | ret configs =>
      obtain ⟨hext, rs, hrs, hserved⟩ := hend
      refine ⟨hext, by simp, ?_, (fun _ hexn => nomatch hexn), fun _ _ _ => ⟨configs, rfl⟩⟩
      rintro _ ⟨⟩
      exact ⟨_, rs, hlisting, hrs, hserved⟩
    | exn x =>
      obtain ⟨hext, hbad, hraised⟩ := hend
      refine ⟨hext, by simp, (fun _ hret => nomatch hret), ?_,
        fun hquiet husable hall => absurd ⟨hquiet, husable, hall⟩ hbad⟩
      rintro _ ⟨⟩
      exact ⟨_, hlisting, hraised⟩
    | cut => exact hend.elim

def sampleHeap : PyHeap :=
  [.dict [("tasks", .obj 1), ("overrides", .obj 6)],
   .list [.obj 2, .obj 4],
   .dict [("install", .obj 3)],
   .dict [("sha1", str "installsha1")],
   .dict [("install.upgrade", .obj 5)],
   .dict [("osd.0", pyNone), ("client.0", .obj 9)],
   .dict [("install", .obj 7)],
   .dict [("zbkc", .obj 8)],
   .dict [("tag", str "overridetag")],
   .dict [("sha1", str "client0sha1")]]

theorem lookupConfigs_searched_sample :
    (∃ r w, Exec (env False) (lookupConfigs (.obj 0) 5 (.obj 0)) ⟨sampleHeap, (), []⟩ r w) ∧
      ∀ r w, Exec (env False) (lookupConfigs (.obj 0) 5 (.obj 0)) ⟨sampleHeap, (), []⟩ r w →
        Searched (env False) False sampleHeap (.obj 0) (.obj 0) r w := by
  have hclosed : Closed sampleHeap := closed_of_inside (by decide)
  have hkeys : KeysNodup sampleHeap := keysNodup_of_forall (by decide)
  have hctx : Valid sampleHeap (.obj 0) := fun i heq => by
    cases heq
    exact ⟨_, rfl⟩
  have htree : IsTree sampleHeap 5 (.obj 0) [0, 1, 2, 3, 4, 5, 9, 6, 7, 8] := ⟨by decide, by decide⟩
  exact lookupConfigs_searched hclosed hkeys hctx htree (fun _ _ _ _ _ _ h => h) (env_total False)

end ZbkcTasks.BuildPackages

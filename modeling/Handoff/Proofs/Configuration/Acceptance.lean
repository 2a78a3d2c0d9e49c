import Handoff.Configuration.Overrides
import Handoff.Proofs.Requirement.Text

/-!
# Configurations are accepted or rejected as a whole

A configuration and its overrides consist of entries: names of checkers, the text of a requirement,
carriers, and the names in the spawners. Each entry is checked on its own, so settings come about
just when no entry has a problem, and else the first one that has a problem is reported. The
settings then combine what the entries say: lists of checkers narrow one another, carriers and
spawners are added, and the text of the requirement is replaced.

## Main definitions

* `Configuration.entries`: what is checked, in order.
* `Configuration.Entry.problem?`: what is wrong with an entry.
* `SpawnerSpec.Describes`: the spawner that is configured.
* `Settings.Combines`: what settings have from a configuration and its overrides.

## Main statement

* `Configuration.settings_accepted`: when there are settings, which error there is else, and what
  the settings are.
-/

namespace Handoff

/-! ### Failures -/

section Failure

variable {ε α β γ : Type}

def failure? : Except ε α → Option ε
  | .ok _ => none
  | .error e => some e

theorem failure?_eq_some_iff {x : Except ε α} {e : ε} : failure? x = some e ↔ x = .error e := by
  cases x <;> simp [failure?]

theorem failure?_eq_none_iff {x : Except ε α} : failure? x = none ↔ ∃ a, x = .ok a := by
  cases x <;> simp [failure?]

/-- Where the second step fails alike whatever the first gave, the first failure counts. -/
theorem failure?_bind {x : Except ε α} {f : α → Except ε β} {later : Option ε}
    (h : ∀ a, failure? (f a) = later) : failure? (x >>= f) = (failure? x).or later := by
  cases x with
  | error e => rfl
  | ok a => exact h a

theorem failure?_bind_pure (x : Except ε α) (g : α → β) :
    failure? (x >>= fun a => pure (g a)) = failure? x := by
  cases x <;> rfl

theorem failure?_mapM (f : α → Except ε β) (xs : List α) :
    failure? (xs.mapM f) = xs.findSome? fun x => failure? (f x) := by
  induction xs with
  | nil => rfl
  | cons x xs ih =>
    rw [List.mapM_cons, failure?_bind fun y => failure?_bind_pure (xs.mapM f) (y :: ·), ih,
      List.findSome?_cons]
    cases failure? (f x) <;> rfl

theorem failure?_option_mapM (f : α → Except ε β) (x : Option α) :
    failure? (x.mapM f) = x.toList.findSome? fun x => failure? (f x) := by
  cases x with
  | none => rfl
  | some a =>
    calc failure? ((some a).mapM f) = failure? (f a) := failure?_bind_pure (f a) some
      _ = (some a).toList.findSome? fun x => failure? (f x) := by simp

theorem option_mapM_eq_ok_iff {f : α → Except ε β} {x : Option α} {y : Option β} :
    x.mapM f = .ok y ↔ x.map f = y.map .ok := by
  cases x with
  | none => cases y <;> simp [pure, Except.pure]
  | some a =>
    have hmap : (some a).mapM f = .ok y ↔ ∃ b, f a = .ok b ∧ Except.ok (some b) = Except.ok y :=
      bind_eq_ok_iff
    rw [hmap]
    cases y <;> simp

/-- A mapping that succeeds where two views agree gives a list with the same view. -/
theorem mapM_eq_ok_iff_map_eq {f : α → Except ε β} {view : α → γ} {view' : β → γ}
    (h : ∀ x y, f x = .ok y ↔ view x = view' y) {xs : List α} {ys : List β} :
    xs.mapM f = .ok ys ↔ xs.map view = ys.map view' := by
  simp only [mapM_eq_ok_iff, h, ← List.forall₂_eq_eq_eq, List.forall₂_map_left_iff,
    List.forall₂_map_right_iff]

end Failure

/-! ### Checkers -/

theorem Checker.named_eq_some_iff {text : String} {c : Checker} : named text = some c ↔
    c.name = text :=
  ⟨name_of_named, fun h => h ▸ named_name c⟩

namespace CheckerSet

variable {names only skip disabled : List String} {cs : List Checker} {c : Checker} {s : CheckerSet}

theorem has_ofList : (ofList cs).has c = true ↔ c ∈ cs := by
  have hfold : ∀ s : CheckerSet, (cs.foldl (fun s d => s.insert d) s).has c = true ↔
      c ∈ cs ∨ s.has c = true := by
    induction cs with
    | nil => simp
    | cons d cs ih =>
      intro s
      rw [List.foldl_cons, ih, has_insert, Bool.or_eq_true, beq_iff_eq, List.mem_cons,
        or_left_comm, or_assoc]
  rw [ofList, hfold]
  simp [none]

theorem has_eraseAll : (s.eraseAll cs).has c = true ↔ c ∉ cs ∧ s.has c = true := by
  induction cs generalizing s with
  | nil => simp [eraseAll]
  | cons d cs ih =>
    have hcons : s.eraseAll (d :: cs) = (s.erase d).eraseAll cs := rfl
    rw [hcons, ih, has_erase, Bool.and_eq_true, bne_iff_ne, List.mem_cons, not_or]
    tauto

theorem resolve_eq_ok_iff : resolve names = .ok cs ↔ names.map trimmed = cs.map Checker.name := by
  refine mapM_eq_ok_iff_map_eq fun name c => ?_
  rw [eq_comm (a := trimmed name), ← Checker.named_eq_some_iff]
  cases Checker.named (trimmed name) <;> simp

theorem mem_of_resolve (h : resolve names = .ok cs) : c ∈ cs ↔ c.name ∈ names.map trimmed := by
  rw [resolve_eq_ok_iff.1 h, List.mem_map_of_injective fun _ _ => Checker.name_injective]

/-- A selected checker is among those to keep, if there are any, and not among the others. -/
theorem has_of_select (h : select only skip disabled = .ok s) : s.has c = true ↔
    (only = [] ∨ c.name ∈ only.map trimmed) ∧ c.name ∉ skip.map trimmed ∧
      c.name ∉ disabled.map trimmed := by
  obtain ⟨kept, hkept, h⟩ := bind_eq_ok_iff.1 h
  obtain ⟨skipped, hskipped, h⟩ := bind_eq_ok_iff.1 h
  obtain ⟨off, hoff, h⟩ := bind_eq_ok_iff.1 h
  have hempty : kept = [] ↔ only = [] := by
    rw [← List.map_eq_nil_iff (f := Checker.name), ← resolve_eq_ok_iff.1 hkept, List.map_eq_nil_iff]
  obtain rfl := Except.ok.inj h
  rw [has_eraseAll, has_eraseAll, mem_of_resolve hoff, mem_of_resolve hskipped,
    ← mem_of_resolve hkept, ← hempty]
  cases kept with
  | nil => simp [all, and_comm]
  | cons d kept =>
    simp only [List.isEmpty_cons, Bool.false_eq_true, if_false, has_ofList, reduceCtorEq, false_or]
    tauto

end CheckerSet

/-! ### Entries -/

namespace Configuration

/-- A text of a configuration or its overrides that is checked. -/
inductive Entry where
  /-- The name of a checker. -/
  | checker (name : String)
  /-- A requirement. -/
  | requirement (text : String)
  /-- A type that carries a context. -/
  | carrier (spec : String)
  /-- The function of a spawner. -/
  | target (spec : String)
  /-- The function that wraps the callbacks of a spawner. -/
  | wrapper (spec : String)

def Entry.problem? : Entry → Option SettingsError
  | .checker name =>
    if Checker.all.any (·.name == trimmed name) then none else some (.unknownChecker name)
  | .requirement text => failure? (Requirement.parse text)
  | .carrier spec => if (QualifiedName.parse spec).isSome then none else some (.invalidCarrier spec)
  | .target spec =>
    match QualifiedName.parse spec with
    | none => some (.invalidTarget spec)
    | some name => if name.package.isNone then some (.localTarget spec) else none
  | .wrapper spec =>
    if (QualifiedName.parse spec).isSome then none else some (.invalidConstructor spec)

def spawnerEntries (s : SpawnerSpec) : List Entry :=
  .target s.target :: s.wrapper.toList.map .wrapper

/-- The entries in the order in which they are checked. An override of the requirement hides the
configured one. -/
def entries (c : Configuration) (o : Overrides) : List Entry :=
  (o.only ++ o.skip ++ c.disabled).map .checker ++ (o.derive <|> c.derive).toList.map
    .requirement ++ (c.carriers ++ o.carriers).map .carrier ++ c.spawners.flatMap spawnerEntries

def firstProblem? (entries : List Entry) : Option SettingsError :=
  entries.findSome? Entry.problem?

theorem firstProblem?_append (es es' : List Entry) :
    firstProblem? (es ++ es') = (firstProblem? es).or (firstProblem? es') :=
  List.findSome?_append

theorem firstProblem?_map {α : Type} (entry : α → Entry) (xs : List α) :
    firstProblem? (xs.map entry) = xs.findSome? fun x => (entry x).problem? := by
  rw [firstProblem?, List.findSome?_map]
  rfl

/-- Unknown names are found in the order of the lists. -/
theorem failure?_resolve (names : List String) :
    failure? (CheckerSet.resolve names) = firstProblem? (names.map .checker) := by
  rw [CheckerSet.resolve, failure?_mapM, firstProblem?_map]
  congr 1
  funext name
  have hnamed : (Checker.all.any (·.name == trimmed name)) =
      (Checker.named (trimmed name)).isSome := by
    rw [Bool.eq_iff_iff, List.any_eq_true, Checker.named, List.find?_isSome]
  rw [Entry.problem?, hnamed]
  cases Checker.named (trimmed name) <;> rfl

theorem failure?_select (only skip disabled : List String) :
    failure? (CheckerSet.select only skip disabled) =
    firstProblem? ((only ++ skip ++ disabled).map .checker) := by
  rw [CheckerSet.select, failure?_bind fun kept => failure?_bind fun skipped =>
    failure?_bind_pure (CheckerSet.resolve disabled) _]
  simp only [failure?_resolve, List.map_append, firstProblem?_append, Option.or_assoc]

theorem failure?_parseCarrier (spec : String) :
    failure? (parseCarrier spec) = (Entry.carrier spec).problem? := by
  rw [parseCarrier, Entry.problem?]
  cases QualifiedName.parse spec <;> rfl

/-- The function of a spawner is checked before its constructor. -/
theorem failure?_spawner (s : SpawnerSpec) : failure? s.spawner =
    firstProblem? (spawnerEntries s) := by
  obtain ⟨target, callback, isVariadic, wrapper, wrapperCallback⟩ := s
  simp only [SpawnerSpec.spawner, Spawner.ofSpec, spawnerEntries, firstProblem?,
    List.findSome?_cons, Entry.problem?]
  cases QualifiedName.parse target with
  | none => rfl
  | some name =>
    cases hpackage : name.package with
    | none =>
      simp only [hpackage]
      rfl
    | some package =>
      simp only [hpackage]
      cases wrapper with
      | none => rfl
      | some text =>
        simp only [Option.map_some, Option.toList_some, List.map_singleton,
          List.findSome?_singleton, Entry.problem?]
        cases QualifiedName.parse text <;> rfl

theorem failure?_spawnerList (c : Configuration) :
    failure? c.spawnerList = firstProblem? (c.spawners.flatMap spawnerEntries) := by
  simp only [spawnerList, failure?_mapM, failure?_spawner, firstProblem?]
  induction c.spawners with
  | nil => rfl
  | cons s spawners ih =>
    rw [List.findSome?_cons, List.flatMap_cons, List.findSome?_append, ← ih]
    cases (spawnerEntries s).findSome? Entry.problem? <;> rfl

/-- Settings fail with the first problem of the entries. -/
theorem failure?_settings (c : Configuration) (o : Overrides) :
    failure? (c.settings o) = firstProblem? (c.entries o) := by
  rw [settings, failure?_bind fun checkers => failure?_bind fun requirement =>
    failure?_bind fun carriers => failure?_bind_pure c.spawnerList _]
  simp only [failure?_select, failure?_option_mapM, failure?_mapM, failure?_parseCarrier,
    failure?_spawnerList, entries, firstProblem?_append, firstProblem?_map,
      Option.or_assoc, Entry.problem?]

/-! ### Accepted entries -/

theorem problem?_checker {name : String} :
    (Entry.checker name).problem? = none ↔ ∃ checker : Checker, checker.name = trimmed name := by
  simp [Entry.problem?, Checker.mem_all]

theorem problem?_requirement {text : String} :
    (Entry.requirement text).problem? = none ↔
      ∃ requirement, Requirement.parse text = .ok requirement :=
  failure?_eq_none_iff

theorem problem?_carrier {spec : String} :
    (Entry.carrier spec).problem? = none ↔ ∃ name, QualifiedName.parse spec = some name := by
  simp [Entry.problem?, Option.isSome_iff_exists]

theorem problem?_target {spec : String} : (Entry.target spec).problem? = none ↔
    ∃ name, QualifiedName.parse spec = some name ∧ name.package ≠ none := by
  rw [Entry.problem?]
  cases QualifiedName.parse spec <;> simp

theorem problem?_wrapper {spec : String} :
    (Entry.wrapper spec).problem? = none ↔ ∃ name, QualifiedName.parse spec = some name := by
  simp [Entry.problem?, Option.isSome_iff_exists]

end Configuration

/-! ### What the settings are -/

structure SpawnerSpec.Describes (spec : SpawnerSpec) (s : Spawner) : Prop where
  checker : s.checker = .spawner
  target : QualifiedName.parse spec.target = some s.target
  callbacks : s.callbacks = if spec.isVariadic then [] else [spec.callback]
  variadicFrom : s.variadicFrom = if spec.isVariadic then some spec.callback else none
  wrapper : spec.wrapper.map (fun text => (QualifiedName.parse text, spec.wrapperCallback)) =
    s.constructor.map fun wrapper => (some wrapper.target, wrapper.callback)

/-- What is read of a spawner is what its table says. -/
theorem SpawnerSpec.describes_of_spawner {spec : SpawnerSpec} {s : Spawner}
    (h : spec.spawner = .ok s) :
    spec.Describes s := by
  obtain ⟨target, callback, isVariadic, wrapper, wrapperCallback⟩ := spec
  simp only [SpawnerSpec.spawner, Spawner.ofSpec] at h
  cases hname : QualifiedName.parse target with
  | none =>
    rw [hname] at h
    cases h
  | some name =>
    rw [hname] at h
    cases hpackage : name.package with
    | none =>
      simp only [hpackage] at h
      cases h
    | some package =>
      simp only [hpackage] at h
      cases wrapper with
      | none =>
        obtain rfl := Except.ok.inj h
        cases isVariadic <;> exact ⟨rfl, hname, rfl, rfl, rfl⟩
      | some text =>
        cases hwrapper : QualifiedName.parse text with
        | none =>
          simp only [Option.map_some, hwrapper] at h
          cases h
        | some wrapping =>
          simp only [Option.map_some, hwrapper] at h
          obtain rfl := Except.ok.inj h
          cases isVariadic <;> exact ⟨rfl, hname, rfl, rfl, by simp [hwrapper]⟩

structure Settings.Combines (s : Settings) (c : Configuration) (o : Overrides) : Prop where
  checkers : ∀ checker : Checker, s.checkers.has checker = true ↔
    (o.only = [] ∨ checker.name ∈ o.only.map trimmed) ∧
      checker.name ∉ o.skip.map trimmed ∧ checker.name ∉ c.disabled.map trimmed
  requirement : (o.derive <|> c.derive).map Requirement.parse = s.requirement.map .ok
  carriers : (c.carriers ++ o.carriers).map QualifiedName.parse = s.carriers.map some
  precise : s.precise = true ↔ c.precise ≠ some false ∧ o.noPrecise = false
  spawners : ∃ configured, s.spawners = Spawner.builtin ++ configured ∧
    List.Forall₂ SpawnerSpec.Describes c.spawners configured

namespace Configuration

variable {c : Configuration} {o : Overrides} {settings : Settings}

/-- Settings that are accepted hold what the configuration and the overrides say. -/
theorem combines_of_settings (h : c.settings o = .ok settings) : settings.Combines c o := by
  obtain ⟨checkers, hcheckers, h⟩ := bind_eq_ok_iff.1 h
  obtain ⟨requirement, hrequirement, h⟩ := bind_eq_ok_iff.1 h
  obtain ⟨carriers, hcarriers, h⟩ := bind_eq_ok_iff.1 h
  obtain ⟨configured, hconfigured, h⟩ := bind_eq_ok_iff.1 h
  obtain rfl := Except.ok.inj h
  refine ⟨fun checker => CheckerSet.has_of_select hcheckers, option_mapM_eq_ok_iff.1 hrequirement,
    ?_, ?_, configured, rfl, ?_⟩
  · refine (mapM_eq_ok_iff_map_eq fun spec name => ?_).1 hcarriers
    rw [parseCarrier]
    cases QualifiedName.parse spec <;> simp
  · rw [isPrecise]
    cases c.precise <;> simp
  · exact (mapM_eq_ok_iff.1 hconfigured).imp fun _ _ => SpawnerSpec.describes_of_spawner

/-- A configuration with overrides gives settings just when all names are names of checkers, the
requirement in force and the carriers can be read, and the spawners name functions of packages. Else
the first entry with a problem is reported. The settings combine the configuration and the
overrides. -/
theorem settings_accepted (c : Configuration) (o : Overrides) :
    ((∃ settings, c.settings o = .ok settings) ↔
      (∀ name ∈ o.only ++ o.skip ++ c.disabled, ∃ checker : Checker, checker.name = trimmed name) ∧
      (∀ text, (o.derive <|> c.derive) = some text →
        ∃ requirement, Requirement.parse text = .ok requirement) ∧
      (∀ spec ∈ c.carriers ++ o.carriers, ∃ name, QualifiedName.parse spec = some name) ∧
      ∀ s ∈ c.spawners, (∃ name, QualifiedName.parse s.target = some name ∧ name.package ≠ none) ∧
        ∀ text, s.wrapper = some text → ∃ name, QualifiedName.parse text = some name) ∧
    (∀ e, c.settings o = .error e ↔ ∃ before entry after, c.entries o = before ++ entry :: after ∧
      entry.problem? = some e ∧ ∀ earlier ∈ before, earlier.problem? = none) ∧
    ∀ settings, c.settings o = .ok settings → settings.Combines c o := by
  refine ⟨?_, fun e => ?_, fun settings => combines_of_settings⟩
  · rw [← failure?_eq_none_iff, failure?_settings, firstProblem?, List.findSome?_eq_none_iff]
    simp only [entries, spawnerEntries, List.forall_mem_append, List.forall_mem_map,
      List.forall_mem_flatMap, List.forall_mem_cons, Option.mem_toList, problem?_checker,
        problem?_requirement, problem?_carrier,
      problem?_target, problem?_wrapper, and_assoc]
  · rw [← failure?_eq_some_iff, failure?_settings, firstProblem?, List.findSome?_eq_some_iff]

def pooledJobs : Configuration where
  disabled := [" spawner "]
  derive := some "apm.Start"
  carriers := ["web/v4.Context"]
  precise := none
  tests := false
  spawners := [⟨"workers.Pool.Submit", 0, false, some "workers.NewJob", 1⟩]

def overridingAll : Overrides where
  only := ["goroutine", "spawner"]
  skip := ["errgroup"]
  derive := some "apm.Open+apm.Close"
  carriers := ["Session"]
  noPrecise := true

theorem settings_accepted_pooledJobs :
    (∃ settings, pooledJobs.settings overridingAll = .ok settings ∧
      settings.Combines pooledJobs overridingAll) ∧
    pooledJobs.settings { overridingAll with skip := ["nope"], derive := some "A+,B" } =
      .error (.unknownChecker "nope") := by
  constructor
  · obtain ⟨settings, hsettings⟩ : ∃ settings, pooledJobs.settings overridingAll = .ok settings :=
      failure?_eq_none_iff.1 (by decide +kernel)
    exact ⟨settings, hsettings, (settings_accepted _ _).2.2 settings hsettings⟩
  · exact ((settings_accepted _ _).2.1 _).2
      ⟨[.checker "goroutine", .checker "spawner"], .checker "nope", _,
        rfl, by decide +kernel, by decide +kernel⟩

end Configuration

end Handoff

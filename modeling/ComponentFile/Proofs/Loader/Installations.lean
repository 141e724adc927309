import ComponentFile.Proofs.Loader.Effects

/-! One installation for each extension. Whether an extension is claimed is kept by the module
system, whether a loader is installed by its installation; in a session in which nobody else claims
or gives back extensions, the two always agree. -/
namespace ComponentFile

namespace Target

def Serves : Target → Text → Prop
  | .loader _, _ => False
  | .installation r, extension => r.installed = true ∧ r.extension = extension

def Blank : Target → Prop
  | .loader _ => True
  | .installation r => r.installed = false → r.loader.maps = []

end Target

namespace Session

def Serves (s : Session) (i : Nat) (extension : Text) : Prop :=
  ∃ t, s.targets[i]? = some t ∧ t.Serves extension

structure Agreed (s : Session) : Prop where
  single : ∀ extension i j, s.Serves i extension → s.Serves j extension → i = j
  claimed : ∀ extension, extension ∈ s.modules.extensions ↔ ∃ i, s.Serves i extension
  blank : ∀ t ∈ s.targets, t.Blank

section Steps
variable {s next : Session} {op : Operation} {i : Nat} {r : Installation} {t u : Target}

theorem claimedExact (h : ModuleSystem) (extension : Text) :
    h.isClaimed extension = true ↔ extension ∈ h.extensions := List.contains_iff_mem

theorem servesHere (here : s.targets[i]? = some t) {extension : Text} :
    s.Serves i extension ↔ t.Serves extension := by
  unfold Serves
  simp [here]

theorem servesSet (here : s.targets[i]? = some t) (targets : next.targets = s.targets.set i u)
    (j : Nat) (extension : Text) :
    next.Serves j extension ↔ if i = j then u.Serves extension else s.Serves j extension := by
  unfold Serves
  rw [targets, targetSet here]
  split <;> simp

theorem blankSet (agreed : Agreed s) (targets : next.targets = s.targets.set i u) (own : u.Blank) :
    ∀ t ∈ next.targets, t.Blank := by
  rw [targets]
  intro t member
  rcases List.mem_or_eq_of_mem_set member with old | rfl
  · exact agreed.blank t old
  · exact own

theorem agreedSame (agreed : Agreed s)
    (extensions : next.modules.extensions = s.modules.extensions)
    (serves : ∀ j extension, next.Serves j extension ↔ s.Serves j extension)
    (blank : ∀ t ∈ next.targets, t.Blank) : Agreed next := by
  refine ⟨fun extension j k => ?_, fun extension => ?_, blank⟩
  · rw [serves, serves]
    exact agreed.single extension j k
  · rw [extensions, agreed.claimed]
    simp only [serves]

theorem agreedReplace (agreed : Agreed s) (here : s.targets[i]? = some t)
    (targets : next.targets = s.targets.set i u)
    (extensions : next.modules.extensions = s.modules.extensions)
    (same : ∀ extension, u.Serves extension ↔ t.Serves extension) (own : u.Blank) : Agreed next := by
  refine agreedSame agreed extensions (fun j extension => ?_) (blankSet agreed targets own)
  rw [servesSet here targets]
  split
  · rename_i one
    rw [same, ← one, servesHere here]
  · rfl

theorem agreedInstall (agreed : Agreed s) (here : s.targets[i]? = some (.installation r))
    (idle : r.installed = false) (free : s.modules.isClaimed r.extension = false)
    (targets : next.targets = s.targets.set i (.installation { r with installed := true }))
    (extensions : next.modules.extensions = s.modules.extensions ++ [r.extension]) :
    Agreed next := by
  -- the module system grants only what nobody serves
  have nobody (j : Nat) : ¬ s.Serves j r.extension := by
    intro serves
    rw [(claimedExact s.modules _).mpr ((agreed.claimed _).mpr ⟨j, serves⟩)] at free
    contradiction
  have serves (j : Nat) (extension : Text) :
      next.Serves j extension ↔ (i = j ∧ r.extension = extension) ∨ s.Serves j extension := by
    rw [servesSet here targets]
    split
    · rename_i one
      subst one
      rw [servesHere here]
      simp [Target.Serves, idle, Installation.extension]
    · rename_i other
      simp [other]
  refine ⟨fun extension j k left right => ?_, fun extension => ?_,
    blankSet agreed targets (by simp [Target.Blank])⟩
  · rcases (serves j extension).mp left with ⟨rfl, rfl⟩ | left
    · rcases (serves k r.extension).mp right with ⟨same, _⟩ | right
      · exact same
      · exact absurd right (nobody k)
    · rcases (serves k extension).mp right with ⟨rfl, rfl⟩ | right
      · exact absurd left (nobody j)
      · exact agreed.single extension j k left right
  · rw [extensions, List.mem_append, List.mem_singleton, agreed.claimed]
    simp only [serves, exists_or, exists_and_right, exists_eq', true_and]
    rw [or_comm, eq_comm]

theorem agreedUninstall (agreed : Agreed s) (here : s.targets[i]? = some (.installation r))
    (installed : r.installed = true)
    (targets : next.targets = s.targets.set i (.installation ⟨r.loader.forgetMaps, false⟩))
    (extensions : next.modules.extensions = s.modules.extensions.filter (· ≠ r.extension)) :
    Agreed next := by
  have own : s.Serves i r.extension := (servesHere here).mpr ⟨installed, rfl⟩
  -- nobody else served the extension that is given back
  have serves (j : Nat) (extension : Text) :
      next.Serves j extension ↔ s.Serves j extension ∧ r.extension ≠ extension := by
    rw [servesSet here targets]
    split
    · rename_i one
      subst one
      rw [servesHere here]
      simp [Target.Serves]
    · rename_i other
      refine ⟨fun serves => ⟨serves, ?_⟩, And.left⟩
      intro same
      subst same
      exact other (agreed.single _ i j own serves)
  refine ⟨fun extension j k left right => ?_, fun extension => ?_,
    blankSet agreed targets (by simp [Target.Blank, Loader.forgetMaps])⟩
  · exact agreed.single extension j k ((serves j extension).mp left).1 ((serves k extension).mp right).1
  · rw [extensions, List.mem_filter, agreed.claimed, decide_eq_true_iff]
    simp only [serves, exists_and_right]
    rw [ne_comm]

theorem agreedStep (quiet : op.Claims = false) (agreed : Agreed s) : Agreed (s.step op).1 := by
  cases stepEffect s op with
  | shared targets extensions =>
    refine agreedSame agreed (extensions quiet) (fun j extension => ?_) ?_
    · unfold Serves
      rw [targets]
    · rw [targets]
      exact agreed.blank
  | loader here targets extensions =>
    exact agreedReplace agreed here targets extensions (fun _ => Iff.rfl) trivial
  | @loads i r m here installed targets extensions =>
    refine agreedReplace agreed here targets extensions (fun extension => ?_) ?_
    · simp only [Target.Serves, Installation.loadedExtension]
    · simp [Target.Blank, installed]
  | installs here idle free targets extensions =>
    exact agreedInstall agreed here idle free targets extensions
  | uninstalls here installed targets extensions =>
    exact agreedUninstall agreed here installed targets extensions

theorem agreedRun (ops : List Operation) (quiet : ∀ op ∈ ops, op.Claims = false)
    (agreed : Agreed s) : Agreed (s.run ops).1 := by
  induction ops generalizing s with
  | nil => exact agreed
  | cons op rest ih =>
    obtain ⟨first, later⟩ := List.forall_mem_cons.mp quiet
    exact ih later (agreedStep first agreed)

theorem installAnswer (agreed : Agreed s) (here : s.targets[i]? = some (.installation r)) :
    ∃ done, (s.step (.install i)).2 = .flag done ∧
      (done = true ↔ ¬ ∃ j, s.Serves j r.extension) ∧
      (done = true → (s.step (.install i)).1.Serves i r.extension) ∧
      (done = false → (s.step (.install i)).1 = s) := by
  by_cases taken : ∃ j, s.Serves j r.extension
  · have claimed := (agreed.claimed r.extension).mpr taken
    rw [installRefusedStep here (.inr ((claimedExact _ _).mpr claimed))]
    exact ⟨false, rfl, by simp [taken], nofun, fun _ => rfl⟩
  · have free : s.modules.isClaimed r.extension = false := by
      rw [← Bool.not_eq_true, claimedExact, agreed.claimed]
      exact taken
    have idle : r.installed = false := by
      rw [← Bool.not_eq_true]
      intro installed
      exact taken ⟨i, (servesHere here).mpr ⟨installed, rfl⟩⟩
    rw [installStep here idle free]
    refine ⟨true, rfl, by simp [taken], fun _ => ?_, nofun⟩
    exact (servesSet here rfl i r.extension).mpr (by rw [if_pos rfl]; exact ⟨rfl, rfl⟩)

theorem uninstallAnswer (here : s.targets[i]? = some (.installation r)) :
    ∃ done, (s.step (.uninstall i)).2 = .flag done ∧ (done = true ↔ r.installed = true) ∧
      (done = true → ¬ (s.step (.uninstall i)).1.Serves i r.extension) ∧
      (done = false → (s.step (.uninstall i)).1 = s) := by
  cases installed : r.installed with
  | false =>
    rw [uninstallRefusedStep here installed]
    exact ⟨false, rfl, Iff.rfl, nofun, fun _ => rfl⟩
  | true =>
    rw [uninstallStep here installed]
    refine ⟨true, rfl, Iff.rfl, fun _ serves => ?_, nofun⟩
    have after := (servesSet here rfl i r.extension).mp serves
    rw [if_pos rfl] at after
    exact Bool.false_ne_true after.1

end Steps

section Runs
variable {env : Files.Environment} {targets : List Target} {ops : List Operation}

theorem agreedStart (fresh : ∀ r, .installation r ∈ targets →
    ∃ config plugins, r = .ofLoader (.fresh config plugins)) : Agreed (start env targets) := by
  have nobody (i : Nat) (extension : Text) : ¬ (start env targets).Serves i extension := by
    intro ⟨t, here, serves⟩
    cases t with
    | loader l => exact serves
    | installation r =>
      obtain ⟨config, plugins, rfl⟩ := fresh r (List.mem_of_getElem? here)
      exact Bool.false_ne_true serves.1
  refine ⟨fun extension i j left => absurd left (nobody i extension), fun extension => ?_, ?_⟩
  · simp only [nobody, exists_false, iff_false]
    exact List.not_mem_nil
  · intro t member
    cases t with
    | loader l => trivial
    | installation r =>
      obtain ⟨config, plugins, rfl⟩ := fresh r member
      exact fun _ => rfl

/- After any operations at most one of the targets serves an extension, and one does exactly when
the module system has a handler for it. Installing succeeds when none does, uninstalling when it is
this one; refused, they change nothing. -/
theorem singleInstallation
    (fresh : ∀ r, .installation r ∈ targets → ∃ config plugins, r = .ofLoader (.fresh config plugins))
    (quiet : ∀ op ∈ ops, op.Claims = false) :
    let s := ((start env targets).run ops).1
    (∀ extension i j, s.Serves i extension → s.Serves j extension → i = j) ∧
      (∀ extension, s.modules.isClaimed extension = true ↔ ∃ i, s.Serves i extension) ∧
      ∀ i r, s.targets[i]? = some (.installation r) →
        (r.installed = false → r.loader.maps = []) ∧
        (∃ done, (s.step (.install i)).2 = .flag done ∧
          (done = true ↔ ¬ ∃ j, s.Serves j r.extension) ∧
          (done = true → (s.step (.install i)).1.Serves i r.extension) ∧
          (done = false → (s.step (.install i)).1 = s)) ∧
        ∃ done, (s.step (.uninstall i)).2 = .flag done ∧ (done = true ↔ r.installed = true) ∧
          (done = true → ¬ (s.step (.uninstall i)).1.Serves i r.extension) ∧
          (done = false → (s.step (.uninstall i)).1 = s) := by
  intro s
  have agreed : Agreed s := agreedRun ops quiet (agreedStart fresh)
  refine ⟨agreed.single, fun extension => ?_, fun i r here => ?_⟩
  · rw [claimedExact, agreed.claimed]
  · have blank := agreed.blank _ (List.mem_of_getElem? here)
    exact ⟨blank, installAnswer agreed here, uninstallAnswer here⟩

theorem secondRefused :
    let r := Installation.ofLoader (.fresh .default .empty)
    let s := ((start ⟨[], [], [], ⟨['/']⟩⟩ [.installation r, .installation r]).run
      [.install 0, .install 1]).1
    s.Serves 0 "vue" ∧ ¬ s.Serves 1 "vue" ∧ s.modules.isClaimed "vue" = true ∧
      (s.step (.install 1)).2 = .flag false ∧ (s.step (.install 1)).1 = s ∧
      (s.step (.uninstall 0)).2 = .flag true := by
  intro r s
  have fresh : ∀ q, .installation q ∈ [Target.installation r, .installation r] →
      ∃ config plugins, q = .ofLoader (.fresh config plugins) := by
    intro q member
    refine ⟨.default, .empty, ?_⟩
    simpa using member
  have quiet : ∀ op ∈ [Operation.install 0, .install 1], op.Claims = false := by
    simp [Operation.Claims]
  obtain ⟨single, claimed, each⟩ := @singleInstallation ⟨[], [], [], ⟨['/']⟩⟩ _ _ fresh quiet
  have first : s.Serves 0 "vue" := ⟨_, rfl, rfl, rfl⟩
  obtain ⟨-, ⟨done, answer, free, -, same⟩, -⟩ := each 1 r rfl
  obtain ⟨-, -, gone, answer', installed, -⟩ := each 0 _ rfl
  have refused : done = false := by
    rw [← Bool.not_eq_true, free]
    exact fun nobody => nobody ⟨0, first⟩
  subst refused
  refine ⟨first, fun second => ?_, (claimed _).mpr ⟨0, first⟩, answer, same rfl, ?_⟩
  · exact absurd (single _ 0 1 first second) (by decide)
  · rw [installed.mpr rfl] at answer'
    exact answer'

end Runs
end Session
end ComponentFile

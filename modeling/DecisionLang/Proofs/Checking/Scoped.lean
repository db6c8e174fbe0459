import DecisionLang.Proofs.Checking.Rerun.Declaration

/-!
# What a check leaves in scope

A check adds variables to the innermost scope, under names that this does not have, and leaves
everything else in scope as it is. The variables that checking an expression adds are declared by
the expression or by a part of it (`Check.grows_expression`), and the check of a body or of a root
declaration adds none. Main statement: `Check.Task.scopes_leaves`.
-/

namespace DecisionLang

/-- Scopes that have grown by variables of certain names in the innermost one. -/
def Scopes.Grows (names : String → Prop) (before after : Scopes) : Prop :=
  ∃ added : Scope, after = ⟨before.innermost ++ added, before.outer⟩ ∧
    ∀ new ∈ added, names new.name

namespace Scopes

variable {before after : Scopes} {new : Variable}

theorem find?_innermost_eq_none (h : before.declare? new = some after) :
    before.innermost.find? new.name = none := by
  unfold declare? at h
  split at h
  · cases h
  · next hnew => simpa using hnew

theorem find?_innermost_of_declare? (h : before.declare? new = some after) :
    after.innermost.find? new.name = some new := by
  have hnew := find?_innermost_eq_none h
  unfold declare? at h
  rw [hnew] at h
  cases h
  unfold Scope.find? at hnew ⊢
  simp [List.find?_append, hnew]

end Scopes

namespace Scopes.Grows

variable {names : String → Prop} {before middle after : Scopes}

theorem refl (scopes : Scopes) : scopes.Grows names scopes := ⟨[], by simp, by simp⟩

theorem trans (h : before.Grows names middle) (h' : middle.Grows names after) :
    before.Grows names after := by
  obtain ⟨added, rfl, hadded⟩ := h
  obtain ⟨added', rfl, hadded'⟩ := h'
  exact ⟨added ++ added', by simp, List.forall_mem_append.2 ⟨hadded, hadded'⟩⟩

theorem mono {names' : String → Prop} (h : before.Grows names after)
    (hnames : ∀ name, names name → names' name) : before.Grows names' after := by
  obtain ⟨added, rfl, hadded⟩ := h
  exact ⟨added, rfl, fun new hnew => hnames _ (hadded new hnew)⟩

theorem declare? {new : Variable} (h : before.declare? new = some after) (hname : names new.name) :
    before.Grows names after := by
  unfold Scopes.declare? at h
  split at h
  · cases h
  · cases h
    exact ⟨[new], rfl, by simpa using hname⟩

theorem find?_innermost (h : before.Grows names after) {name : String} {found : Variable}
    (hfound : before.innermost.find? name = some found) :
    after.innermost.find? name = some found := by
  obtain ⟨added, rfl, _⟩ := h
  unfold Scope.find? at hfound ⊢
  rw [List.find?_append, hfound, Option.some_or]

theorem find?_innermost_eq_none (h : before.Grows names after) {name : String}
    (hnone : after.innermost.find? name = none) : before.innermost.find? name = none := by
  cases hfound : before.innermost.find? name with
  | none => rfl
  | some found => cases (h.find?_innermost hfound).symm.trans hnone

theorem find?_eq_none (h : before.Grows names after) {name : String} (hname : ¬names name)
    (hnone : before.find? name = none) : after.find? name = none := by
  obtain ⟨added, rfl, hadded⟩ := h
  simp only [Scopes.find?, List.findSome?_cons, Scope.find?, List.find?_append] at hnone ⊢
  have hother : List.find? (fun new : Variable => new.name == name) added = none := by
    refine List.find?_eq_none.2 fun new hnew heq => hname ?_
    rw [← beq_iff_eq.1 heq]
    exact hadded new hnew
  rwa [hother, Option.or_none]

end Scopes.Grows

namespace Check

variable {names : String → Prop}

/-- What an expression adds to its scope has the name of a variable declared in it. -/
theorem grows_expression (env : TypeEnv) {whole : Expr}
    (h : ∀ name ∈ whole.declaredNames, names name) (state : CheckState) :
    state.scopes.Grows names ((expression env whole).run state).2.scopes := by
  have hfits : (Rerun.behind env {}).Fits (.expression whole) :=
    Rerun.fits_behind env fun id _ => Findings.lacks_empty id
  have hgains := (Rerun.repeats_expression hfits h).gains state (Rerun.among_behind env {} _)
  obtain ⟨added, hafter, _, hadded⟩ := hgains.scopes
  exact ⟨added, hafter, fun new hnew => (hadded new hnew).1.1⟩

theorem scopes_root (env : TypeEnv) (item : Declaration) (state : CheckState) :
    ((root env item).run state).2.scopes = state.scopes := by
  have hfits : (Rerun.behind env {}).Fits (.ofDeclaration item) :=
    Rerun.fits_behind env fun id _ => Findings.lacks_empty id
  have hroot : (Rerun.behind env {}).Repeats (fun _ => False) (root env item) (root env item)
      fun _ => True := Rerun.repeats_root hfits
  exact (hroot.gains state (Rerun.among_behind env {} _)).scopes.eq_of_none fun _ hnew => hnew.1

/-! ### All that is checked -/

/-- Something that is checked. -/
inductive Task where
  | expression (item : Expr)
  /-- A typed name of a block, or a variable that is declared in code. -/
  | declaration (declared : Declared) (origin : Origin) (default : Option Expr)
  | body (lines : List Expr)
  | function (decl : FunctionDecl)
  | enumeration (decl : EnumDecl)
  | row (columnTypes : List (Option Ty)) (item : TableRow)
  | table (decl : TableDecl)
  | record (decl : RecordDecl)
  /-- The parameters or results of a function under test, as variables of a block. -/
  | members (decl : FunctionDecl) (role : BlockRole)
  | assignments (decl : FunctionDecl) (role : BlockRole) (block : AssignmentBlock)
  | validationTable (decl : FunctionDecl) (item : ValidationTable)
  | scenario (decl : ScenarioDecl)
  | root (item : Declaration)

namespace Task

def check (env : TypeEnv) : Task → Check Unit
  | expression item => discard (Check.expression env item)
  | declaration declared origin default =>
    Check.declaration env declared origin (default.map (partOf env))
  | body lines => Check.body (lines.map (partOf env))
  | function decl => Check.function env decl
  | enumeration decl => Check.enumeration decl
  | row columnTypes item => Check.row env columnTypes item
  | table decl => Check.table env decl
  | record decl => Check.record env decl
  | members decl role => declareMembers env decl role
  | assignments decl role block => Check.assignments env decl role block
  | validationTable decl item => Check.validationTable env decl item
  | scenario decl => Check.scenario env decl
  | root item => ownedBy item.name (Check.root env item)

/-- Whether variables that come into scope go out of scope again. -/
def isScoped : Task → Bool
  | expression _ | declaration .. | row .. | members .. => false
  | _ => true

def leaves (env : TypeEnv) (task : Task) (before : CheckState) : CheckState :=
  ((task.check env).run before).2

/-- The owner of log entries is changed by the check of a root declaration alone, and only for its
length. -/
theorem gains_leaves (env : TypeEnv) (task : Task) (before : CheckState) :
    before.scopes.Gains (fun _ => task.isScoped = false) (task.leaves env before).scopes ∧
      (task.leaves env before).log.owner = before.log.owner := by
  have hfits (node : Node) : (Rerun.behind env {}).Fits node :=
    Rerun.fits_behind env fun id _ => Findings.lacks_empty id
  have hgains {names : String → Prop} {action : Check Unit}
      (h : (Rerun.behind env {}).Repeats names action action fun _ => True)
      (himp : ∀ name, names name → task.isScoped = false) :
      before.scopes.Gains (fun _ => task.isScoped = false) (action.run before).2.scopes ∧
        (action.run before).2.log.owner = before.log.owner := by
    have hgains := h.gains before (Rerun.among_behind env {} _)
    exact ⟨hgains.scopes.mono fun new hnew => himp new.name hnew.1, hgains.owner⟩
  have hnone (name : String) (h : False) : task.isScoped = false := h.elim
  have hline (line : Expr) : (Rerun.behind env {}).Repeated (fun _ => True) line :=
    Rerun.repeats_expression (hfits _) fun _ _ => trivial
  -- What a check adds is read off its repetition in the same environment, rule by rule.
  cases task with
  | expression item => exact hgains (Rerun.repeats_line (hfits _)) fun _ _ => rfl
  | declaration declared origin default =>
    have hwritten : declared.type.Among (Rerun.behind env {}).named := fun _ _ => trivial
    have hdefault (value : Expr) (_ : value ∈ default) := hline value
    have hdeclaration := Rerun.repeats_declaration declared trivial (Findings.lacks_empty _)
      hwritten hdefault origin
    exact hgains hdeclaration fun _ _ => rfl
  | body lines => exact hgains (Rerun.repeats_body fun line _ => hline line) hnone
  | function decl => exact hgains (Rerun.repeats_function (hfits _)) hnone
  | enumeration decl => exact hgains (Rerun.repeats_enumeration decl) hnone
  | row columnTypes item =>
    exact hgains (Rerun.repeats_row (hfits _) fun _ _ type _ => type.among_true) fun _ _ => rfl
  | table decl => exact hgains (Rerun.repeats_table (hfits _)) hnone
  | record decl => exact hgains (Rerun.repeats_record (hfits _)) hnone
  | members decl role =>
    exact hgains (Rerun.repeats_declareMembers (hfits _).refersAmong role) fun _ _ => rfl
  | assignments decl role block =>
    exact hgains (Rerun.repeats_assignments (hfits _).refersAmong role fun line _ => hfits _) hnone
  | validationTable decl item =>
    exact hgains (Rerun.repeats_validationTable (hfits _).refersAmong fun cells _ => hfits _) hnone
  | scenario decl => exact hgains (Rerun.repeats_scenario (hfits _)) hnone
  | root item =>
    have hscopes : ((Task.root item).leaves env before).scopes = before.scopes :=
      scopes_root env item { before with log.owner := some item.name }
    rw [hscopes]
    exact ⟨.refl _, rfl⟩

/-- What has a scope of its own leaves the others as they are. -/
theorem scopes_eq_of_isScoped (env : TypeEnv) (task : Task) (h : task.isScoped = true)
    (before : CheckState) : (task.leaves env before).scopes = before.scopes :=
  (task.gains_leaves env before).1.eq_of_none fun _ hnew => by cases h.symm.trans hnew

/-- A check, whether it logs errors or not, leaves the number of scopes, the owner of log entries
and all scopes but the innermost one as they are. The innermost scope gains variables under names
that it did not have, and what has a scope of its own adds none at all. -/
theorem scopes_leaves (env : TypeEnv) (task : Task) (before : CheckState) :
    (task.leaves env before).scopes.depth = before.scopes.depth ∧
    (task.leaves env before).log.owner = before.log.owner ∧
    (task.leaves env before).scopes.outer = before.scopes.outer ∧
    (∃ added : Scope,
      (task.leaves env before).scopes.innermost = before.scopes.innermost ++ added ∧
      (added.map Variable.name).Nodup ∧
      ∀ new ∈ added, before.scopes.innermost.find? new.name = none) ∧
    (∀ name found, before.scopes.innermost.find? name = some found →
      (task.leaves env before).scopes.innermost.find? name = some found) ∧
    (task.isScoped = true → (task.leaves env before).scopes = before.scopes ∧
      ∀ name, (task.leaves env before).scopes.find? name = before.scopes.find? name) := by
  obtain ⟨⟨added, hafter, hnodup, hadded⟩, howner⟩ := task.gains_leaves env before
  have hgrows : before.scopes.Grows (fun _ => True) (task.leaves env before).scopes :=
    ⟨added, hafter, fun _ _ => trivial⟩
  refine ⟨?_, howner, ?_, ⟨added, ?_, hnodup, fun new hnew => (hadded new hnew).2⟩,
    fun name found hfound => hgrows.find?_innermost hfound, fun hscoped => ?_⟩
  · rw [hafter]
    rfl
  · rw [hafter]
  · rw [hafter]
  · have hscopes := task.scopes_eq_of_isScoped env hscoped before
    exact ⟨hscopes, fun name => by rw [hscopes]⟩

/-- A body that declares a variable under a name that is in scope around it. -/
def hidingBody : Task :=
  .body [.declare ⟨1, ⟨"test.lexy", 3, 5⟩⟩ (.primitive .string) "Rate" none]

/-- The body declares a text without a fault, and after it the name means the number again. -/
theorem scopes_leaves_hidingBody :
    ∃ (env : TypeEnv) (state : CheckState),
      hidingBody.isScoped = true ∧
      (state.scopes.find? "Rate").map Variable.type = some (.primitive .number) ∧
      (hidingBody.leaves env state).findings.definitions.find? 1 = some (.primitive .string) ∧
      (hidingBody.leaves env state).log.entries = [] ∧
      (hidingBody.leaves env state).scopes.depth = state.scopes.depth ∧
      (hidingBody.leaves env state).scopes.find? "Rate" = state.scopes.find? "Rate" := by
  let env : TypeEnv := ⟨{ declarations := [] }, .standard⟩
  let state : CheckState :=
    { scopes := ⟨[⟨"Rate", .primitive .number, .code, ⟨"test.lexy", 1, 3⟩⟩], []⟩ }
  obtain ⟨hdepth, _, _, _, _, hscoped⟩ := scopes_leaves env hidingBody state
  exact ⟨env, state, rfl, rfl, by decide +kernel, by decide +kernel, hdepth, (hscoped rfl).2 "Rate"⟩

end Task

end Check

end DecisionLang

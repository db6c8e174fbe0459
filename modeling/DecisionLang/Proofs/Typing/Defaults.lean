import DecisionLang.Proofs.Tree.Lookup
import DecisionLang.Tree.Walk
import DecisionLang.Typing.Members
import Mathlib.Data.List.Nodup

/-!
# Default values without a scope

Members that take the type of a default value are listed as far as this type can be told from the
definitions listed before: `tells` says when it can. The members of types used on the way are a
parameter of all of this, and fewer of them mean that fewer definitions are listed, each with the
type it would have anyway. So a type that is met on the way to its own members takes definitions
away and changes none: `membersOutside_within`.

What is left out must not be mistaken for a root declaration of the same name: definitions without
a written type are required to have names that no root declaration has.
-/

namespace DecisionLang

namespace Typed

variable {small large : Typed}

/-- What a name stands for in one listing, it stands for in the other. -/
def Within (small large : Typed) : Prop :=
  ∀ name type, small.first? name = some type → large.first? name = some type

theorem last?_append_singleton (visible : Typed) (name other : String) (type : Ty) :
    last? (visible ++ [(name, type)]) other =
      if name = other then some type else visible.last? other := by
  unfold last? first?
  rw [List.reverse_append, List.reverse_singleton, List.singleton_append, List.find?_cons]
  by_cases h : name = other
  · simp [h]
  · rw [if_neg h, show (name == other) = false from beq_false_of_ne h]

theorem first?_of_mem {typed : Typed} (hnames : (typed.map Prod.fst).Nodup) {name : String}
    {type : Ty} (h : (name, type) ∈ typed) : typed.first? name = some type := by
  induction typed with
  | nil => cases h
  | cons head tail ih =>
    obtain ⟨hhead, htail⟩ := List.nodup_cons.1 hnames
    unfold first?
    rw [List.find?_cons]
    rcases List.mem_cons.1 h with rfl | h
    · simp
    · have hne : head.1 ≠ name := fun heq =>
        hhead (heq ▸ List.mem_map_of_mem (f := Prod.fst) h)
      rw [show (head.1 == name) = false from beq_false_of_ne hne]
      exact ih htail h

theorem mem_of_first? {typed : Typed} {name : String} {type : Ty}
    (h : typed.first? name = some type) : (name, type) ∈ typed := by
  obtain ⟨⟨found, _⟩, hfound, rfl⟩ := Option.map_eq_some_iff.1 h
  obtain rfl : found = name := by simpa using List.find?_some hfound
  exact List.mem_of_find?_eq_some hfound

theorem within_of_sublist (h : small.Sublist large) (hnames : (large.map Prod.fst).Nodup) :
    small.Within large :=
  fun _ _ hfirst => first?_of_mem hnames (h.subset (mem_of_first? hfirst))

end Typed

theorem Expr.operand_induction {P : Expr → Prop}
    (group : ∀ mark inner, P inner → P (.group mark inner))
    (binary : ∀ mark left operator right, P left → P right → P (.binary mark left operator right))
    (other : ∀ item, (∀ mark inner, item ≠ .group mark inner) →
      (∀ mark left operator right, item ≠ .binary mark left operator right) → P item)
    (item : Expr) : P item := by
  induction hsize : sizeOf item using Nat.strongRecOn generalizing item with
  | ind size ih =>
    subst hsize
    have hpart (part : Expr) (h : part ∈ item.children) : P part :=
      ih (sizeOf part) (sizeOf_lt_of_mem_children h) part rfl
    cases item with
    | group mark inner => exact group mark inner (hpart inner (.head _))
    | binary mark left operator right =>
      exact binary mark left operator right (hpart left (.head _)) (hpart right (.tail _ (.head _)))
    | _ => exact other _ nofun nofun

namespace TypeEnv

variable {env : TypeEnv} {members large : Ty → Typed}

/-- Whether the type of a default value can be told without the variables in scope: names stand for
what is visible, paths lead somewhere, and no other part needs a variable. -/
def tells (env : TypeEnv) (members : Ty → Typed) (visible : Typed) : Expr → Bool
  | .literal .. | .make .. | .lookUp .. | .call .. => true
  | .name _ word => (visible.last? word).isSome
  | .path _ names => ((visible.last? names.root).or (env.rootType? names.root)).any fun root =>
    (env.followFrom? members root names.members).isSome
  | .group _ inner => env.tells members visible inner
  | .binary _ left _ right => env.tells members visible left && env.tells members visible right
  | _ => false

/-- Whether a definition has a written type or one that its default value tells. -/
def tellsDefinition (env : TypeEnv) (members : Ty → Typed) (visible : Typed)
    (definition : Definition) : Bool :=
  definition.type != .implicit || definition.default.any (env.tells members visible)

/-- Whether each definition of a block has a type that it tells, given those listed before. -/
def tellsAll (env : TypeEnv) (members : Ty → Typed) (visible : Typed) : List Definition → Bool
  | [] => true
  | definition :: rest =>
    env.tellsDefinition members visible definition &&
      env.tellsAll members (visible ++ env.definitionsFrom members visible [definition]) rest

/-- Whether each parameter or result of a function has a type that it tells. -/
def tellsBlock (env : TypeEnv) (members : Ty → Typed) (decl : FunctionDecl) : BlockRole → Bool
  | .parameters => env.tellsAll members [] decl.parameterDefinitions
  | .results => env.tellsAll members (env.blockFrom members decl .parameters) decl.resultDefinitions

/-- Definitions are listed under their names and in their order. -/
theorem names_definitionsFrom (visible : Typed) (definitions : List Definition) :
    ((env.definitionsFrom members visible definitions).map Prod.fst).Sublist
      (definitions.map Definition.name) := by
  induction definitions generalizing visible with
  | nil => exact List.Sublist.refl _
  | cons definition rest ih =>
    rw [definitionsFrom]
    split
    · exact (ih _).cons_cons _
    · exact (ih _).cons _

/-! ### Fewer members -/

theorem memberFrom?_within (h : ∀ object, (members object).Within (large object)) {owner : Ty}
    {member : String} {type : Ty} (htype : env.memberFrom? members owner member = some type) :
    env.memberFrom? large owner member = some type := by
  cases owner with
  | record | generated => exact h _ _ _ htype
  | _ => exact htype

theorem followFrom?_within (h : ∀ object, (members object).Within (large object)) {owner : Ty}
    {path : List String} {type : Ty} (htype : env.followFrom? members owner path = some type) :
    env.followFrom? large owner path = some type := by
  unfold followFrom? at htype ⊢
  induction path generalizing owner with
  | nil => exact htype
  | cons member path ih =>
    rw [List.foldlM_cons] at htype ⊢
    obtain ⟨middle, hmiddle, hrest⟩ := Option.bind_eq_some_iff.1 htype
    exact Option.bind_eq_some_iff.2 ⟨middle, memberFrom?_within h hmiddle, ih hrest⟩

/-- What is visible in one place has the same type in another, and no root declaration that can be
seen in the first place is hidden in the second. -/
structure Sees (env : TypeEnv) (visible wider : Typed) : Prop where
  known : ∀ name type, visible.last? name = some type → wider.last? name = some type
  roots : ∀ name, (env.rootType? name).isSome → visible.last? name = none →
    wider.last? name = none

namespace Sees

variable {visible wider : Typed} {name : String}

theorem refl (visible : Typed) : env.Sees visible visible := ⟨fun _ _ h => h, fun _ _ h => h⟩

theorem concat (h : env.Sees visible wider) (name : String) (type : Ty) :
    env.Sees (visible ++ [(name, type)]) (wider ++ [(name, type)]) := by
  constructor
  · intro other found
    rw [Typed.last?_append_singleton, Typed.last?_append_singleton]
    split
    · exact id
    · exact h.known other found
  · intro other hroot
    rw [Typed.last?_append_singleton, Typed.last?_append_singleton]
    split
    · exact id
    · exact h.roots other hroot

/-- A name that is new and that no root declaration has may be missing. -/
theorem concat_right (h : env.Sees visible wider) (hnew : wider.last? name = none)
    (hroot : env.rootType? name = none) (type : Ty) :
    env.Sees visible (wider ++ [(name, type)]) := by
  constructor
  · intro other found hother
    have hwider := h.known other found hother
    have hne : name ≠ other := by
      rintro rfl
      exact Option.some_ne_none found (hwider.symm.trans hnew)
    rw [Typed.last?_append_singleton, if_neg hne]
    exact hwider
  · intro other hother hnone
    have hne : name ≠ other := by
      rintro rfl
      rw [hroot] at hother
      cases hother
    rw [Typed.last?_append_singleton, if_neg hne]
    exact h.roots other hother hnone

theorem root (h : env.Sees visible wider) {type : Ty}
    (hroot : (visible.last? name).or (env.rootType? name) = some type) :
    (wider.last? name).or (env.rootType? name) = some type := by
  cases hvisible : visible.last? name with
  | some found =>
    rw [hvisible] at hroot
    rw [h.known name found hvisible]
    exact hroot
  | none =>
    rw [hvisible, Option.none_or] at hroot
    rw [h.roots name (Option.isSome_of_eq_some hroot) hvisible]
    exact hroot

end Sees

theorem defaultFrom?_within (h : ∀ object, (members object).Within (large object))
    {visible wider : Typed} (hsees : env.Sees visible wider) {expression : Expr} {type : Ty}
    (htype : env.defaultFrom? members visible expression = some type) :
    env.defaultFrom? large wider expression = some type := by
  induction expression using Expr.operand_induction generalizing type with
  | group mark inner ih => exact ih htype
  | binary mark left operator right ihleft ihright =>
    obtain ⟨leftType, hleft, hrest⟩ := Option.bind_eq_some_iff.1 htype
    obtain ⟨rightType, hright, hresult⟩ := Option.bind_eq_some_iff.1 hrest
    refine Option.bind_eq_some_iff.2 ⟨leftType, ihleft hleft, ?_⟩
    exact Option.bind_eq_some_iff.2 ⟨rightType, ihright hright, hresult⟩
  | other expression hgroup hbinary =>
    cases expression with
    | group mark inner => exact absurd rfl (hgroup mark inner)
    | binary mark left operator right => exact absurd rfl (hbinary mark left operator right)
    | name mark word => exact hsees.known word type htype
    | path mark names =>
      obtain ⟨root, hroot, hfollow⟩ := Option.bind_eq_some_iff.1 htype
      exact Option.bind_eq_some_iff.2 ⟨root, hsees.root hroot, followFrom?_within h hfollow⟩
    | _ => exact htype

theorem definitionFrom?_within (h : ∀ object, (members object).Within (large object))
    {visible wider : Typed} (hsees : env.Sees visible wider) {definition : Definition} {type : Ty}
    (htype : env.definitionFrom? members visible definition = some type) :
    env.definitionFrom? large wider definition = some type := by
  unfold definitionFrom? at htype ⊢
  split at htype
  · obtain ⟨value, hvalue, hdefault⟩ := Option.bind_eq_some_iff.1 htype
    exact Option.bind_eq_some_iff.2 ⟨value, hvalue, defaultFrom?_within h hsees hdefault⟩
  · exact htype

/-- A written type does not depend on what is visible. -/
theorem definitionFrom?_written {visible wider : Typed} {definition : Definition}
    (hwritten : definition.type ≠ .implicit) :
    env.definitionFrom? members visible definition =
      env.definitionFrom? large wider definition := by
  unfold definitionFrom?
  split
  · next himplicit => exact absurd himplicit hwritten
  · rfl

/-- A block without repeated names, in which only definitions with a written type may have the
name of a root declaration. -/
structure WellNamed (env : TypeEnv) (definitions : List Definition) : Prop where
  nodup : (definitions.map Definition.name).Nodup
  unhidden : ∀ definition ∈ definitions, definition.type = .implicit →
    env.rootType? definition.name = none

theorem WellNamed.tail {definition : Definition} {rest : List Definition}
    (h : env.WellNamed (definition :: rest)) : env.WellNamed rest :=
  ⟨(List.nodup_cons.1 h.nodup).2,
    fun item hitem => h.unhidden item (List.mem_cons_of_mem _ hitem)⟩

theorem definitionsFrom_within (h : ∀ object, (members object).Within (large object))
    {visible wider : Typed} (hsees : env.Sees visible wider) {definitions : List Definition}
    (hnamed : env.WellNamed definitions)
    (hnew : ∀ definition ∈ definitions, wider.last? definition.name = none) :
    (env.definitionsFrom members visible definitions).Sublist
        (env.definitionsFrom large wider definitions) ∧
      env.Sees (visible ++ env.definitionsFrom members visible definitions)
        (wider ++ env.definitionsFrom large wider definitions) := by
  induction definitions generalizing visible wider with
  | nil => exact ⟨List.Sublist.refl _, by simpa [definitionsFrom] using hsees⟩
  | cons definition rest ih =>
    have hhead := hnew definition List.mem_cons_self
    have hrest (type : Ty) : ∀ item ∈ rest,
        (wider ++ [(definition.name, type)]).last? item.name = none := by
      intro item hitem
      have hne : definition.name ≠ item.name := fun heq =>
        (List.nodup_cons.1 hnamed.nodup).1 (heq ▸ List.mem_map_of_mem hitem)
      rw [Typed.last?_append_singleton, if_neg hne]
      exact hnew item (List.mem_cons_of_mem _ hitem)
    cases hsmall : env.definitionFrom? members visible definition with
    | some type =>
      have hlarge := definitionFrom?_within h hsees hsmall
      obtain ⟨hsublist, hafter⟩ := ih (hsees.concat definition.name type) hnamed.tail (hrest type)
      simp only [definitionsFrom, hsmall, hlarge]
      exact ⟨hsublist.cons_cons _, by simpa using hafter⟩
    | none =>
      cases hlarge : env.definitionFrom? large wider definition with
      | none =>
        simp only [definitionsFrom, hsmall, hlarge]
        exact ih hsees hnamed.tail fun item hitem => hnew item (List.mem_cons_of_mem _ hitem)
      | some type =>
        have himplicit : definition.type = .implicit := by
          by_contra hwritten
          have hsame : env.definitionFrom? members visible definition =
              env.definitionFrom? large wider definition := definitionFrom?_written hwritten
          cases hsmall.symm.trans (hsame.trans hlarge)
        have hroot := hnamed.unhidden definition List.mem_cons_self himplicit
        obtain ⟨hsublist, hafter⟩ :=
          ih (hsees.concat_right hhead hroot type) hnamed.tail (hrest type)
        simp only [definitionsFrom, hsmall, hlarge]
        exact ⟨hsublist.cons _, by simpa using hafter⟩

end TypeEnv

/-- The typed names of a function or record type, which are declared in one scope. -/
def Declaration.definitions : Declaration → List Definition
  | .function decl => decl.parameterDefinitions ++ decl.resultDefinitions
  | .record decl => decl.members
  | _ => []

namespace TypeEnv

variable {env : TypeEnv} {members large : Ty → Typed}

namespace WellNamed

variable {first second : List Definition}

theorem left (h : env.WellNamed (first ++ second)) : env.WellNamed first := by
  refine ⟨?_, fun item hitem => h.unhidden item (List.mem_append_left second hitem)⟩
  have hnodup := h.nodup
  rw [List.map_append] at hnodup
  exact (List.nodup_append.1 hnodup).1

theorem right (h : env.WellNamed (first ++ second)) : env.WellNamed second := by
  refine ⟨?_, fun item hitem => h.unhidden item (List.mem_append_right first hitem)⟩
  have hnodup := h.nodup
  rw [List.map_append] at hnodup
  exact (List.nodup_append.1 hnodup).2.1

/-- What is listed for one part of a block does not have the names of the other part. -/
theorem last?_eq_none (h : env.WellNamed (first ++ second)) {definition : Definition}
    (hdefinition : definition ∈ second) :
    (env.definitionsFrom members [] first).last? definition.name = none := by
  have hnodup := h.nodup
  rw [List.map_append] at hnodup
  have hdisjoint := (List.nodup_append.1 hnodup).2.2
  refine Option.map_eq_none_iff.2 (List.find?_eq_none.2 fun entry hentry hsame => ?_)
  have hname : entry.1 ∈ first.map Definition.name :=
    (names_definitionsFrom [] first).subset (List.mem_map_of_mem (List.mem_reverse.1 hentry))
  exact hdisjoint _ hname _ (List.mem_map_of_mem hdefinition) (beq_iff_eq.1 hsame)

end WellNamed

theorem blockFrom_within (h : ∀ object, (members object).Within (large object))
    {decl : FunctionDecl}
    (hnamed : env.WellNamed (decl.parameterDefinitions ++ decl.resultDefinitions))
    (role : BlockRole) : (env.blockFrom members decl role).Within (env.blockFrom large decl role) := by
  have hparameters := definitionsFrom_within h (.refl []) hnamed.left fun _ _ => rfl
  cases role with
  | parameters =>
    refine Typed.within_of_sublist hparameters.1 ?_
    exact hnamed.left.nodup.sublist (names_definitionsFrom _ _)
  | results =>
    have hresults := definitionsFrom_within h hparameters.2 hnamed.right fun _ => hnamed.last?_eq_none
    refine Typed.within_of_sublist hresults.1 ?_
    exact hnamed.right.nodup.sublist (names_definitionsFrom _ _)

variable (hnamed : ∀ item ∈ env.document.declarations, env.WellNamed item.definitions)
include hnamed

theorem membersFrom_within (h : ∀ object, (members object).Within (large object)) (object : Ty) :
    (env.membersFrom members object).Within (env.membersFrom large object) := by
  cases object with
  | record name =>
    change Typed.Within
      ((env.document.record? name).elim [] fun decl => env.definitionsFrom members [] decl.members)
      ((env.document.record? name).elim [] fun decl => env.definitionsFrom large [] decl.members)
    cases hdecl : env.document.record? name with
    | none => exact fun _ _ h => h
    | some decl =>
      have hmembers : env.WellNamed decl.members :=
        hnamed _ (Document.mem_declarations_of_record? hdecl).1
      have hwithin := definitionsFrom_within h (.refl []) hmembers fun _ _ => rfl
      exact Typed.within_of_sublist hwithin.1 (hmembers.nodup.sublist (names_definitionsFrom _ _))
  | generated owner part =>
    have hblock (role : BlockRole) : Typed.Within
        ((env.document.function? owner).elim [] fun decl => env.blockFrom members decl role)
        ((env.document.function? owner).elim [] fun decl => env.blockFrom large decl role) := by
      cases hdecl : env.document.function? owner with
      | none => exact fun _ _ h => h
      | some decl =>
        exact blockFrom_within h (hnamed _ (Document.mem_declarations_of_function? hdecl).1) role
    cases part with
    | row => exact fun _ _ h => h
    | parameters => exact hblock .parameters
    | results => exact hblock .results
  | _ => exact fun _ _ h => h

/-- A type that is on the way takes members away from others and changes none. -/
theorem membersOutside_within {visiting fewer : List Ty} (hfewer : fewer ⊆ visiting) (object : Ty) :
    (env.membersOutside visiting object).Within (env.membersOutside fewer object) := by
  induction hunmet : unmet env.objectTypes visiting using Nat.strongRecOn
    generalizing visiting fewer object with
  | ind count ih =>
    subst hunmet
    rw [membersOutside]
    split
    · next hobject =>
      rw [membersOutside, dif_pos ⟨hobject.1, fun hmem => hobject.2 (hfewer hmem)⟩]
      refine membersFrom_within hnamed (fun inner => ?_) object
      refine ih _ (unmet_cons_lt hobject.1 hobject.2) ?_ inner rfl
      exact List.cons_subset_cons object hfewer
    · exact nofun

theorem membersOutside_within_members (visiting : List Ty) (object : Ty) :
    (env.membersOutside visiting object).Within (env.members object) :=
  membersOutside_within hnamed (List.nil_subset visiting) object

omit hnamed

theorem members_eq {object : Ty} (h : object ∈ env.objectTypes) :
    env.members object = env.membersFrom (env.membersOutside [object]) object := by
  unfold members
  rw [membersOutside, dif_pos ⟨h, List.not_mem_nil⟩]

end TypeEnv

end DecisionLang

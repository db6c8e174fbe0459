import DecisionLang.Proofs.Checking.Document
import DecisionLang.Proofs.Checking.Scoped
import Mathlib.Data.List.Flatten

/-!
# Checking does not depend on its order

A root declaration that is checked after others is checked as if it were alone: nothing is in scope
that others declared, entries are logged on its own behalf, and nothing that others found out has
numbers of its own. So a check of several declarations logs what they log alone, one after the
other, and finds out what they find out alone. Main statement:
`TypeEnv.check_independent`.
-/

namespace DecisionLang

/-! ### Numbers of declarations -/

namespace Document

variable {document : Document} {order : List Nat}

theorem subperm_declarations (document : Document) (horder : order.Nodup) :
    (order.filterMap (document.declarations[·]?)).Subperm document.declarations := by
  have hrange : (order.filter (· < document.declarations.length)).Subperm
      (List.range document.declarations.length) :=
    List.subperm_of_subset (horder.filter _) fun index hindex => by
      simpa using (List.mem_filter.1 hindex).2
  have hinside : order.filterMap (document.declarations[·]?) =
      (order.filter (· < document.declarations.length)).filterMap (document.declarations[·]?) := by
    rw [List.filterMap_filter]
    refine List.filterMap_congr fun index _ => ?_
    split
    · rfl
    · next hindex => exact List.getElem?_eq_none (by simpa using hindex)
  obtain ⟨indices, hperm, hsublist⟩ := hrange
  have hall := (hsublist.filterMap (document.declarations[·]?)).subperm.trans
    (perm_declarations (.refl _)).subperm
  rw [hinside]
  exact (hperm.filterMap _).symm.subperm.trans hall

theorem nodup_numbers (hnumbers : document.numbers.Nodup) (horder : order.Nodup) :
    ((order.filterMap (document.declarations[·]?)).flatMap fun item =>
      (Node.ofDeclaration item).numbers).Nodup := by
  obtain ⟨items, hperm, hsublist⟩ := document.subperm_declarations horder
  have hnodup : (items.flatMap fun item => (Node.ofDeclaration item).numbers).Nodup :=
    hnumbers.sublist (hsublist.flatMap _)
  exact (hperm.flatMap_right _).nodup_iff.1 hnodup

end Document

/-! ### One check after another -/

namespace Past

/-- One check after another. -/
def followedBy (past next : Past) : Past :=
  ⟨past.entries ++ next.entries, next.findings.after past.findings⟩

end Past

theorem CheckState.after_after (state : CheckState) (next past : Past) :
    (state.after next).after past = state.after (past.followedBy next) := by
  simp [CheckState.after, Findings.after, Past.followedBy]

theorem Findings.Lacks.after {findings past : Findings} {id : Nat} (h : findings.Lacks id)
    (hpast : past.Lacks id) : (findings.after past).Lacks id := by
  constructor
  · exact (Recorded.find?_append ..).trans (by rw [hpast.types, h.types]; rfl)
  · exact (Recorded.find?_append ..).trans (by rw [hpast.resolved, h.resolved]; rfl)
  · exact (Recorded.find?_append ..).trans (by rw [hpast.definitions, h.definitions]; rfl)

namespace Check

variable {env : TypeEnv} {item : Declaration} {items : List Declaration}

/-- What a root declaration logs and finds out when it is checked alone. -/
def alone (env : TypeEnv) (item : Declaration) : Past :=
  let after := ((root env item).run { log.owner := some item.name }).2
  ⟨after.log.entries, after.findings⟩

/-- What root declarations log and find out alone, one after the other. -/
def together (env : TypeEnv) (items : List Declaration) : Past where
  entries := items.flatMap fun item => (alone env item).entries
  findings :=
    ⟨items.flatMap fun item => (alone env item).findings.types,
      items.flatMap fun item => (alone env item).findings.resolved,
      items.flatMap fun item => (alone env item).findings.definitions⟩

theorem followedBy_together (past : Past) (item : Declaration) (items : List Declaration) :
    (past.followedBy (alone env item)).followedBy (together env items) =
      past.followedBy (together env (item :: items)) := by
  simp [Past.followedBy, Findings.after, together]

theorem owner_of_mem_alone {entry : LogEntry} (h : entry ∈ (alone env item).entries) :
    entry.owner = some item.name := by
  have hfits : (Rerun.behind env {}).Fits (.ofDeclaration item) :=
    Rerun.fits_behind env fun id _ => Findings.lacks_empty id
  have hroot : (Rerun.behind env {}).Repeats (fun _ => True) (root env item) (root env item)
      fun _ => True := Rerun.repeats_root hfits
  obtain ⟨new, hentries, howner⟩ :=
    (hroot.gains { log.owner := some item.name } (Rerun.among_behind env {} _)).entries
  refine howner entry ?_
  rwa [alone, hentries] at h

theorem lacks_alone {id : Nat} (h : id ∉ (Node.ofDeclaration item).numbers) :
    (alone env item).findings.Lacks id := by
  have hframe (kind : FindingKind) : (alone env item).findings.SameAt {} (kind, id) := by
    refine (sound_root item).frame { log.owner := some item.name } (kind, id) fun hkey => h ?_
    have hrecorded := FindingKey.mem_flatMap_all.1 hkey
    exact (Node.subperm_numbers _).subset (List.mem_append_left _ hrecorded)
  exact ⟨hframe .type, hframe .variable, hframe .definition⟩

/-- After other checks, a root declaration is checked as if it were alone. -/
theorem run_root_after {past : Past}
    (hpast : ∀ id ∈ (Node.ofDeclaration item).numbers, past.findings.Lacks id)
    (owner : Option String) :
    (ownedBy item.name (root env item)).run (({ log.owner := owner } : CheckState).after past) =
      ((), ({ log.owner := owner } : CheckState).after (past.followedBy (alone env item))) := by
  have hroot : (Rerun.behind env past).Repeats (fun _ => False) (root env item) (root env item)
      fun _ => True := Rerun.repeats_root (Rerun.fits_behind env hpast)
  have halone : ((ownedBy item.name (root env item)).run { log.owner := owner }).2 =
      ({ log.owner := owner } : CheckState).after (alone env item) := by
    have hscopes := scopes_root env item { log.owner := some item.name }
    simp only [CheckState.after, Findings.after, alone, List.append_nil]
    change ({ ((root env item).run { log.owner := some item.name }).2 with
      log.owner := owner } : CheckState) = _
    generalize ((root env item).run { log.owner := some item.name }).2 = done at hscopes
    obtain ⟨scopes, log, findings⟩ := done
    subst hscopes
    rfl
  have hrun := Rerun.run_ownedBy hroot item.name { log.owner := owner }
    (Rerun.among_behind env past _)
  rw [halone, CheckState.after_after] at hrun
  exact hrun

theorem run_roots_after
    (hnodup : (items.flatMap fun item => (Node.ofDeclaration item).numbers).Nodup)
    (env : TypeEnv) (past : Past)
    (hpast : ∀ item ∈ items, ∀ id ∈ (Node.ofDeclaration item).numbers, past.findings.Lacks id)
    (owner : Option String) :
    (items.forM fun item => ownedBy item.name (root env item)).run
        (({ log.owner := owner } : CheckState).after past) =
      ((), ({ log.owner := owner } : CheckState).after (past.followedBy (together env items))) := by
  induction items generalizing past with
  | nil =>
    have hpast : past.followedBy (together env []) = past := by
      simp [Past.followedBy, together, Findings.after]
    rw [hpast]
    rfl
  | cons item items ih =>
    obtain ⟨hitem, hitems⟩ := List.forall_mem_cons.1 hpast
    obtain ⟨_, hrest, hdisjoint⟩ := List.nodup_append.1 hnodup
    have hnext : ∀ other ∈ items, ∀ id ∈ (Node.ofDeclaration other).numbers,
        (past.followedBy (alone env item)).findings.Lacks id := by
      intro other hother id hid
      refine Findings.Lacks.after (lacks_alone fun hmem => ?_) (hitems other hother id hid)
      exact hdisjoint id hmem id (List.mem_flatMap.2 ⟨other, hother, hid⟩) rfl
    change (ownedBy item.name (root env item) >>= fun _ =>
      items.forM fun item => ownedBy item.name (root env item)).run _ = _
    rw [StateT.run_bind, run_root_after hitem, ← followedBy_together]
    exact ih hrest _ hnext

end Check

/-! ### Tables put together -/

section Together

variable {ι α : Type} {order : List ι} {i : ι}

theorem flatMap_eq_of_unique {f : ι → List α} (hnodup : order.Nodup) (hi : i ∈ order)
    (h : ∀ j ∈ order, j ≠ i → f j = []) : order.flatMap f = f i := by
  obtain ⟨before, after, rfl⟩ := List.append_of_mem hi
  obtain ⟨_, htail, hdisjoint⟩ := List.nodup_append.1 hnodup
  have hbefore : before.flatMap f = [] := List.flatMap_eq_nil_iff.2 fun j hj =>
    h j (List.mem_append_left _ hj) (hdisjoint j hj i List.mem_cons_self)
  have hafter : after.flatMap f = [] := List.flatMap_eq_nil_iff.2 fun j hj =>
    h j (List.mem_append_right _ (List.mem_cons_of_mem _ hj)) fun heq =>
      (List.nodup_cons.1 htail).1 (heq ▸ hj)
  rw [List.flatMap_append, List.flatMap_cons, hbefore, hafter, List.nil_append, List.append_nil]

theorem Recorded.find?_flatMap (f : ι → Recorded α) (id : Nat) :
    find? (order.flatMap f) id = order.findSome? fun i => (f i).find? id := by
  induction order with
  | nil => rfl
  | cons i order ih =>
    rw [List.flatMap_cons, Recorded.find?_append, ih, List.findSome?_cons]
    cases (f i).find? id <;> rfl

/-- Tables without common numbers, one behind the other, hold what one of them holds. -/
theorem Recorded.find?_flatMap_iff {f : ι → Recorded α} {id : Nat} {value : α}
    (h : ∀ i ∈ order, ∀ j ∈ order, (f i).find? id ≠ none → (f j).find? id ≠ none → i = j) :
    find? (order.flatMap f) id = some value ↔ ∃ i ∈ order, (f i).find? id = some value := by
  rw [Recorded.find?_flatMap]
  constructor
  · exact List.exists_of_findSome?_eq_some
  · rintro ⟨i, hi, hvalue⟩
    have hsome : (order.findSome? fun i => (f i).find? id) ≠ none := fun hnone =>
      Option.some_ne_none value (hvalue.symm.trans (List.findSome?_eq_none_iff.1 hnone i hi))
    obtain ⟨other, hother⟩ := Option.ne_none_iff_exists'.1 hsome
    obtain ⟨j, hj, hfound⟩ := List.exists_of_findSome?_eq_some hother
    obtain rfl : i = j := h i hi j hj (hvalue ▸ Option.some_ne_none value)
      (hfound ▸ Option.some_ne_none other)
    exact hother.trans (hfound.symm.trans hvalue)

end Together

/-- What is recorded is what is recorded in one of several findings. -/
structure Findings.IsUnion (whole : Findings) (parts : List Findings) : Prop where
  types : ∀ id type, whole.types.find? id = some type ↔
    ∃ part ∈ parts, part.types.find? id = some type
  resolved : ∀ id found, whole.resolved.find? id = some found ↔
    ∃ part ∈ parts, part.resolved.find? id = some found
  definitions : ∀ id type, whole.definitions.find? id = some type ↔
    ∃ part ∈ parts, part.definitions.find? id = some type

theorem Findings.IsUnion.sameAt {whole other : Findings} {parts parts' : List Findings}
    (h : whole.IsUnion parts) (h' : other.IsUnion parts') (hperm : parts'.Perm parts)
    (key : FindingKey) : other.SameAt whole key := by
  obtain ⟨_ | _ | _, id⟩ := key
  · exact Option.ext fun type => by simp only [h'.types, h.types, hperm.mem_iff]
  · exact Option.ext fun found => by simp only [h'.resolved, h.resolved, hperm.mem_iff]
  · exact Option.ext fun type => by simp only [h'.definitions, h.definitions, hperm.mem_iff]

namespace TypeEnv

variable {env : TypeEnv} {order : List Nat}

theorem check_eq_together (hnumbers : env.document.numbers.Nodup) (horder : order.Nodup)
    (log : Log) :
    (env.check order log).1 =
        (Check.together env (order.filterMap (env.document.declarations[·]?))).findings ∧
      (env.check order log).2 = ⟨log.entries ++
        (Check.together env (order.filterMap (env.document.declarations[·]?))).entries,
        log.owner⟩ := by
  have hstart : ({ log } : CheckState) =
      ({ log.owner := log.owner } : CheckState).after ⟨log.entries, {}⟩ := by
    simp [CheckState.after, Findings.after]
  have hrun := Check.run_roots_after (Document.nodup_numbers hnumbers horder) env
    ⟨log.entries, {}⟩ (fun _ _ id _ => Findings.lacks_empty id) log.owner
  unfold check Check.roots
  rw [hstart, hrun]
  simp [CheckState.after, Findings.after, Past.followedBy]

/-- What is checked together is what is checked alone, one after the other. -/
theorem check_eq_flatMap (hnumbers : env.document.numbers.Nodup) (horder : order.Nodup)
    (log : Log) :
    (env.check order log).2 = ⟨log.entries ++
        order.flatMap fun index => (env.check [index] {}).2.entries, log.owner⟩ ∧
      (env.check order log).1 =
        ⟨order.flatMap fun index => (env.check [index] {}).1.types,
          order.flatMap fun index => (env.check [index] {}).1.resolved,
          order.flatMap fun index => (env.check [index] {}).1.definitions⟩ := by
  have hflatMap {α : Type} (f : Declaration → List α) :
      (order.filterMap (env.document.declarations[·]?)).flatMap f =
        order.flatMap fun index =>
          ([index].filterMap (env.document.declarations[·]?)).flatMap f := by
    rw [List.filterMap_eq_flatMap_toList, List.flatMap_assoc]
    refine List.flatMap_congr fun index _ => ?_
    rw [List.filterMap_eq_flatMap_toList, List.flatMap_singleton]
  have halone (index : Nat) := check_eq_together hnumbers (List.nodup_singleton index) {}
  obtain ⟨hfindings, hlog⟩ := check_eq_together hnumbers horder log
  rw [hfindings, hlog]
  simp only [fun index => (halone index).1, fun index => (halone index).2, List.nil_append]
  unfold Check.together
  simp only [hflatMap, and_self]

theorem check_singleton {index : Nat} {item : Declaration}
    (hitem : env.document.declarations[index]? = some item) (log : Log) :
    env.check [index] log =
      (((Check.ownedBy item.name (Check.root env item)).run { log }).2.findings,
        ((Check.ownedBy item.name (Check.root env item)).run { log }).2.log) := by
  unfold check Check.roots
  rw [List.filterMap_cons, hitem]
  rfl

theorem check_alone {index : Nat} {item : Declaration}
    (hitem : env.document.declarations[index]? = some item) :
    (env.check [index] {}).1 = (Check.alone env item).findings ∧
      (env.check [index] {}).2.entries = (Check.alone env item).entries := by
  rw [check_singleton hitem]
  exact ⟨rfl, rfl⟩

theorem check_alone_of_none {index : Nat} (h : env.document.declarations[index]? = none) :
    env.check [index] {} = ({}, {}) := by
  unfold check Check.roots
  rw [List.filterMap_cons, h]
  rfl

/-- A declaration finds something out under numbers of its own only. -/
theorem exists_of_not_lacks {index id : Nat} (h : ¬(env.check [index] {}).1.Lacks id) :
    ∃ item, env.document.declarations[index]? = some item ∧
      id ∈ (Node.ofDeclaration item).numbers := by
  cases hitem : env.document.declarations[index]? with
  | none =>
    rw [check_alone_of_none hitem] at h
    exact absurd (Findings.lacks_empty id) h
  | some item =>
    rw [(check_alone hitem).1] at h
    exact ⟨item, rfl, not_not.1 fun hid => h (Check.lacks_alone hid)⟩

theorem eq_of_not_lacks (hnumbers : env.document.numbers.Nodup) {i j id : Nat}
    (hi : ¬(env.check [i] {}).1.Lacks id) (hj : ¬(env.check [j] {}).1.Lacks id) : i = j := by
  by_contra hne
  obtain ⟨item, hitem, hid⟩ := exists_of_not_lacks hi
  obtain ⟨other, hother, hid'⟩ := exists_of_not_lacks hj
  have hpair : [i, j].Nodup := by simpa using hne
  have hnodup := Document.nodup_numbers hnumbers hpair
  simp only [List.filterMap_cons, hitem, hother, List.filterMap_nil, List.flatMap_cons,
    List.flatMap_nil, List.append_nil] at hnodup
  exact (List.nodup_append.1 hnodup).2.2 id hid id hid' rfl

theorem isUnion_check (hnumbers : env.document.numbers.Nodup) (horder : order.Nodup) (log : Log) :
    (env.check order log).1.IsUnion (order.map fun index => (env.check [index] {}).1) := by
  have hdistinct {i j id : Nat} (hi : ¬(env.check [i] {}).1.Lacks id)
      (hj : ¬(env.check [j] {}).1.Lacks id) : i = j := eq_of_not_lacks hnumbers hi hj
  rw [(check_eq_flatMap hnumbers horder log).2]
  refine ⟨fun id type => ?_, fun id found => ?_, fun id type => ?_⟩ <;>
    simp only [List.mem_map, exists_exists_and_eq_and]
  · exact Recorded.find?_flatMap_iff fun i _ j _ hi hj =>
      hdistinct (fun h => hi h.types) fun h => hj h.types
  · exact Recorded.find?_flatMap_iff fun i _ j _ hi hj =>
      hdistinct (fun h => hi h.resolved) fun h => hj h.resolved
  · exact Recorded.find?_flatMap_iff fun i _ j _ hi hj =>
      hdistinct (fun h => hi h.definitions) fun h => hj h.definitions

/-- Where names do not repeat, an owner has the entries of one declaration in any order. -/
theorem filter_owner_eq (hnames : env.document.names.Nodup) {order' : List Nat}
    (horder : order.Nodup) (hperm : order'.Perm order) (name : String) :
    (order'.flatMap fun index => (env.check [index] {}).2.entries).filter
        (fun entry => entry.owner == some name) =
      (order.flatMap fun index => (env.check [index] {}).2.entries).filter
        fun entry => entry.owner == some name := by
  let own (index : Nat) : List LogEntry :=
    (env.check [index] {}).2.entries.filter fun entry => entry.owner == some name
  have hname {index : Nat} (h : own index ≠ []) :
      (env.document.names)[index]? = some name := by
    obtain ⟨entry, hentry⟩ := List.exists_mem_of_ne_nil _ h
    obtain ⟨hmem, howner⟩ := List.mem_filter.1 hentry
    cases hitem : env.document.declarations[index]? with
    | none =>
      rw [check_alone_of_none hitem] at hmem
      cases hmem
    | some item =>
      rw [(check_alone hitem).2] at hmem
      have heq := (Check.owner_of_mem_alone hmem).symm.trans (beq_iff_eq.1 howner)
      rw [Document.names, List.getElem?_map, hitem]
      exact heq
  rw [List.filter_flatMap, List.filter_flatMap]
  change order'.flatMap own = order.flatMap own
  by_cases hnone : ∀ index ∈ order, own index = []
  · rw [List.flatMap_eq_nil_iff.2 hnone]
    exact List.flatMap_eq_nil_iff.2 fun index hindex => hnone index (hperm.mem_iff.1 hindex)
  · push Not at hnone
    obtain ⟨index, hindex, hsome⟩ := hnone
    have hother (other : Nat) (hne : other ≠ index) : own other = [] := by
      by_contra hown
      have hlt := (List.getElem?_eq_some_iff.1 (hname hown)).1
      exact hne ((List.getElem?_inj hlt hnames).1 ((hname hown).trans (hname hsome).symm))
    rw [flatMap_eq_of_unique horder hindex fun other _ => hother other]
    exact flatMap_eq_of_unique (hperm.nodup_iff.2 horder) (hperm.mem_iff.2 hindex)
      fun other _ => hother other

/-- Root declarations may be checked in any order: each logs and finds out what it does alone. -/
theorem check_independent (hnumbers : env.document.numbers.Nodup) (horder : order.Nodup)
    (log : Log) :
    (env.check order log).2.entries =
      log.entries ++ order.flatMap (fun index => (env.check [index] {}).2.entries) ∧
    (env.check order log).2.owner = log.owner ∧
    (∀ index item, env.document.declarations[index]? = some item →
      ∀ entry ∈ (env.check [index] {}).2.entries, entry.owner = some item.name) ∧
    (env.check order log).1.IsUnion (order.map fun index => (env.check [index] {}).1) ∧
    ∀ order' : List Nat, order'.Perm order →
      (∀ key, (env.check order' log).1.SameAt (env.check order log).1 key) ∧
      (env.check order' log).2.entries.Perm (env.check order log).2.entries ∧
      (env.document.names.Nodup → ∀ name,
        (env.check order' log).2.entries.filter (fun entry => entry.owner == some name) =
          (env.check order log).2.entries.filter fun entry => entry.owner == some name) := by
  obtain ⟨hlog, _⟩ := check_eq_flatMap hnumbers horder log
  refine ⟨by rw [hlog], by rw [hlog], ?_, isUnion_check hnumbers horder log, ?_⟩
  · intro index item hitem entry hentry
    rw [(check_alone hitem).2] at hentry
    exact Check.owner_of_mem_alone hentry
  · intro order' hperm
    have horder' : order'.Nodup := hperm.nodup_iff.2 horder
    obtain ⟨hlog', _⟩ := check_eq_flatMap hnumbers horder' log
    rw [hlog, hlog']
    refine ⟨?_, (hperm.flatMap_right _).append_left _, fun hnames name => ?_⟩
    · exact (isUnion_check hnumbers horder log).sameAt (isUnion_check hnumbers horder' log)
        (hperm.map _)
    · simp only [List.filter_append, filter_owner_eq hnames horder hperm name]

/-- A record type and a function that uses it, with a value of the wrong type in each of them. -/
def twoMistakes : Progress :=
  ({} : Progress).readSource .standard 2 "test.lexy"
    ["type Rate", "  number Value = true", "function Pay", "  parameters", "    Rate Hourly",
      "  results", "    number Sum", "  code", "    Sum = Hourly"]

/-- The function is checked first, and each mistake is logged for the declaration that it is in. -/
theorem check_independent_twoMistakes :
    ∃ env : TypeEnv, env.document = twoMistakes.document ∧ env.document.numbers.Nodup ∧
      [1, 0].Nodup ∧
      (env.check [1, 0] {}).2.entries =
        (env.check [1] {}).2.entries ++ (env.check [0] {}).2.entries ∧
      (env.check [1, 0] {}).2.entries.map LogEntry.owner = [some "Pay", some "Rate"] := by
  let env : TypeEnv := ⟨twoMistakes.document, .standard⟩
  have hnumbers : env.document.numbers.Nodup := by decide +kernel
  have horder : [1, 0].Nodup := by decide
  obtain ⟨hentries, _⟩ := check_independent hnumbers horder {}
  refine ⟨env, rfl, hnumbers, horder, ?_, by decide +kernel⟩
  rw [hentries]
  simp

end TypeEnv

end DecisionLang

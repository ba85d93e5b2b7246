import Crystalline.Environment.Overlay

/-!
# The passes before the domains, in any order

Secrets are read by their names, and a variable is taken or refused for itself alone,
so that two orders of the same variables are both taken or both refused, and leave
the same variables for the domains.
-/

namespace Crystalline.Environment

open Text
open Keyed (collect lookup_collect_perm)

variable {machine : Machine}

theorem varKind_setting {name key : Text} (kind : varKind name = .setting key) :
    settingVar key = name := by
  unfold varKind at kind
  split_ifs at kind
  split at kind
  · next found sought =>
      cases kind
      simpa using List.find?_some sought
  · split at kind
    · unfold fragmentKind at kind
      split_ifs at kind
    · cases kind

/-- The kinds that a name with the domain prefix has. -/
def VarKind.ofDomain : VarKind → Bool
  | .domain | .origin | .review | .readers => true
  | _ => false

theorem varKind_ofDomain {name : Text} (kind : (varKind name).ofDomain = true) :
    ∃ fragment, name = domainPrefix ++ fragment ∧ varKind name = fragmentKind fragment := by
  unfold varKind at kind ⊢
  split_ifs at kind ⊢ <;> try cases kind
  split at kind
  · cases kind
  · split at kind
    · next fragment prefixed =>
        exact ⟨fragment, stripPrefix_eq_some_iff.mp prefixed, rfl⟩
    · cases kind

theorem fragmentOf_append (fragment : Text) : fragmentOf (domainPrefix ++ fragment) = fragment := by
  rw [fragmentOf, stripPrefix_append]
  rfl

theorem eq_of_fragmentOf {left right : Text} (leftKind : (varKind left).ofDomain = true)
    (rightKind : (varKind right).ofDomain = true) (same : fragmentOf left = fragmentOf right) :
    left = right := by
  obtain ⟨leftFragment, rfl, -⟩ := varKind_ofDomain leftKind
  obtain ⟨rightFragment, rfl, -⟩ := varKind_ofDomain rightKind
  rw [fragmentOf_append, fragmentOf_append] at same
  rw [same]

variable {attachment : Attachment}

theorem fragmentOf_eq_base {var : Text}
    (ends : endsWith (fragmentOf var) attachment.suffix = true) :
    fragmentOf var = attachment.base var ++ attachment.suffix := by
  obtain ⟨base, whole⟩ := endsWith_iff.mp ends
  rw [Attachment.base, ← whole, stripSuffix_eq_some_iff.mpr rfl]
  rfl

/-- The kind of the variables that an attachment reads. -/
def Attachment.Reads (attachment : Attachment) (kind : VarKind) : Prop :=
  kind.ofDomain = true ∧ ∀ fragment, fragmentKind fragment = kind →
    endsWith fragment attachment.suffix = true

theorem origin_reads : originAttachment.Reads .origin := by
  refine ⟨rfl, fun fragment kind => ?_⟩
  unfold fragmentKind at kind
  split_ifs at kind with ends
  exact ends

theorem review_reads : reviewAttachment.Reads .review := by
  refine ⟨rfl, fun fragment kind => ?_⟩
  unfold fragmentKind at kind
  split_ifs at kind with _ ends
  exact ends

theorem readers_reads : readersAttachment.Reads .readers := by
  refine ⟨rfl, fun fragment kind => ?_⟩
  unfold fragmentKind at kind
  split_ifs at kind with _ _ ends
  exact ends

section

variable {kind : VarKind} (reads : attachment.Reads kind)
include reads

theorem Attachment.Reads.fragmentOf {var : Text} (isKind : varKind var = kind) :
    fragmentOf var = attachment.base var ++ attachment.suffix := by
  obtain ⟨fragment, rfl, same⟩ := varKind_ofDomain (isKind ▸ reads.1)
  rw [isKind] at same
  apply fragmentOf_eq_base
  rw [fragmentOf_append]
  exact reads.2 fragment same.symm

theorem Attachment.Reads.eq_of_base {left right : Text} (leftKind : varKind left = kind)
    (rightKind : varKind right = kind) (same : attachment.base left = attachment.base right) :
    left = right := by
  apply eq_of_fragmentOf (leftKind ▸ reads.1) (rightKind ▸ reads.1)
  rw [reads.fragmentOf leftKind, reads.fragmentOf rightKind, same]

end

theorem resolveSecrets_sublist {var : Text → Option Text} {plains : List Text}
    {found : VarPairs × VarPairs} (resolved : resolveSecrets machine var plains = .ok found) :
    (found.1.map Prod.fst).Sublist plains := by
  induction plains generalizing found with
  | nil =>
      cases resolved
      exact .slnil
  | cons plain plains induction =>
      rw [resolveSecrets] at resolved
      split at resolved
      · cases resolved
      · exact (induction resolved).cons plain
      · split at resolved
        · cases resolved
        · split at resolved
          · cases resolved
          · cases later : resolveSecrets machine var plains with
            | error error =>
                rw [later] at resolved
                cases resolved
            | ok rest =>
                rw [later] at resolved
                cases resolved
                exact (induction later).cons_cons plain

theorem fileBacked_noDomain : ∀ plain ∈ fileBacked,
    stripPrefix domainPrefix plain = none ∧ stripPrefix domainPrefix (fileVar plain) = none := by
  decide

theorem not_consumed_of_domain {name : Text} (kind : (varKind name).ofDomain = true) :
    consumed name = false := by
  obtain ⟨fragment, rfl, -⟩ := varKind_ofDomain kind
  apply Bool.eq_false_iff.mpr
  intro isSecret
  obtain ⟨plain, member, either⟩ := List.any_eq_true.mp isSecret
  obtain ⟨noPlain, noFile⟩ := fileBacked_noDomain plain member
  rcases Bool.or_eq_true_iff.mp either with same | same
  · rw [← beq_iff_eq.mp same, stripPrefix_append] at noPlain
    cases noPlain
  · rw [← beq_iff_eq.mp same, stripPrefix_append] at noFile
    cases noFile

variable {vars order : VarPairs}

/-- Secrets are read the same in every order, and the other variables stay. -/
theorem resolveFileSecrets_perm (perm : order.Perm vars) (distinct : (vars.map Prod.fst).Nodup) :
    (∃ error, resolveFileSecrets machine vars = .error error ∧
      resolveFileSecrets machine order = .error error) ∨
    ∃ seen seenOrder files, resolveFileSecrets machine vars = .ok (seen, files) ∧
      resolveFileSecrets machine order = .ok (seenOrder, files) ∧ seenOrder.Perm seen ∧
      (seen.map Prod.fst).Nodup ∧
      ∀ var, (varKind var.1).ofDomain = true → (var ∈ seen ↔ var ∈ vars) := by
  have sameLookup : (fun name => (collect order).lookup name) =
      fun name => (collect vars).lookup name := by
    funext name
    exact (lookup_collect_perm perm.symm distinct name).symm
  unfold resolveFileSecrets
  rw [sameLookup]
  cases resolved : resolveSecrets machine (fun name => (collect vars).lookup name) fileBacked with
  | error error => exact .inl ⟨error, rfl, rfl⟩
  | ok found =>
      have among := resolveSecrets_sublist resolved
      have isConsumed (var) (member : var ∈ found.1) : consumed var.1 = true := by
        have plain := among.subset (List.mem_map_of_mem member)
        exact List.any_eq_true.mpr ⟨var.1, plain, by simp⟩
      refine .inr ⟨_, _, _, rfl, rfl, (perm.filter _).append_right _, ?_, ?_⟩
      · rw [List.map_append, List.nodup_append]
        refine ⟨(List.filter_sublist.map Prod.fst).nodup distinct,
          among.nodup (by decide), ?_⟩
        intro name kept other secret same
        subst same
        obtain ⟨var, keptVar, rfl⟩ := List.mem_map.mp kept
        obtain ⟨source, sourceMember, sameName⟩ := List.mem_map.mp secret
        have secretVar := isConsumed source sourceMember
        rw [sameName] at secretVar
        have free := (List.mem_filter.mp keptVar).2
        rw [secretVar] at free
        cases free
      · intro var kind
        have free := not_consumed_of_domain kind
        rw [List.mem_append, List.mem_filter, free]
        constructor
        · rintro (⟨member, -⟩ | secret)
          · exact member
          · rw [isConsumed var secret] at free
            cases free
        · intro member
          exact .inl ⟨member, rfl⟩

/-- The database block with a variable's setting applied. -/
def applied (machine : Machine) (database : DatabaseConfig) (var : Text × Text) :
    DatabaseConfig :=
  match varKind var.1 with
  | .setting key =>
      if var.2.isEmpty then database
      else if key = publicUrlKey && (machine.publicUrlWarning var.2).isSome then database
      else ((applySetting machine database key var.2).toOption).getD database
  | _ => database

/-- The variables of a kind that hold something. -/
def heldOf (kind : VarKind) (vars : VarPairs) : VarPairs :=
  vars.filter fun var => varKind var.1 = kind && !var.2.isEmpty

theorem take_fields {state next : Collected} {name value : Text}
    (taken : state.take machine name value = .ok next) :
    next.domainVars = state.domainVars ++ (if varKind name = .domain then [(name, value)] else []) ∧
    next.originVars = state.originVars ++ heldOf .origin [(name, value)] ∧
    next.reviewVars = state.reviewVars ++ heldOf .review [(name, value)] ∧
    next.readersVars = state.readersVars ++ heldOf .readers [(name, value)] ∧
    next.appVars = (heldOf .app [(name, value)]).foldl
      (fun map var => map.insert var.1 var.2) state.appVars ∧
    next.database = applied machine state.database (name, value) := by
  unfold Collected.take at taken
  cases kind : varKind name <;> rw [kind] at taken <;> cases empty : value.isEmpty <;>
    simp only [empty, if_true, if_false, Bool.false_eq_true] at taken <;>
    try (cases taken; simp [heldOf, applied, kind, empty])
  next key =>
    split at taken
    · next dropped =>
        cases taken
        simp [heldOf, applied, kind, empty, dropped]
    · next counts =>
        cases applies : applySetting machine state.database key value with
        | error error =>
            rw [applies] at taken
            cases taken
        | ok database =>
            rw [applies] at taken
            cases taken
            simp [heldOf, applied, kind, empty, counts, applies, Except.toOption]

theorem takeAll_fields {state final : Collected} {vars : VarPairs}
    (taken : state.takeAll machine vars = .ok final) :
    final.domainVars = state.domainVars ++ vars.filter (fun var => varKind var.1 = .domain) ∧
    final.originVars = state.originVars ++ heldOf .origin vars ∧
    final.reviewVars = state.reviewVars ++ heldOf .review vars ∧
    final.readersVars = state.readersVars ++ heldOf .readers vars ∧
    final.appVars = (heldOf .app vars).foldl (fun map var => map.insert var.1 var.2)
      state.appVars ∧
    final.database = vars.foldl (applied machine) state.database := by
  induction vars generalizing state with
  | nil =>
      cases taken
      simp [heldOf]
  | cons var vars induction =>
      obtain ⟨name, value⟩ := var
      rw [Collected.takeAll] at taken
      cases first : state.take machine name value with
      | error error =>
          rw [first] at taken
          cases taken
      | ok next =>
          rw [first] at taken
          obtain ⟨domains, origins, reviews, readers, apps, database⟩ := induction taken
          obtain ⟨domain, origin, review, reader, app, base⟩ := take_fields first
          have split (kind : VarKind) :
              heldOf kind ((name, value) :: vars) =
                heldOf kind [(name, value)] ++ heldOf kind vars :=
            @List.filter_append (Text × Text)
              (fun var => varKind var.1 = kind && !var.2.isEmpty) [(name, value)] vars
          rw [split, split, split, split, List.foldl_append, List.foldl_cons]
          refine ⟨?_, ?_, ?_, ?_, ?_, ?_⟩
          · rw [domains, domain]
            by_cases isDomain : varKind name = .domain <;> simp [isDomain]
          · rw [origins, origin, List.append_assoc]
          · rw [reviews, review, List.append_assoc]
          · rw [readers, reader, List.append_assoc]
          · rw [apps, app]
          · rw [database, base]

theorem applySetting_cases (machine : Machine) (key value : Text) :
    (key = backendKey ∧ ∃ backend, ∀ database,
      applySetting machine database key value = .ok { database with backend := backend }) ∨
    (key = urlKey ∧ ∃ url, ∀ database,
      applySetting machine database key value = .ok { database with url := some url }) ∨
    (∀ database, applySetting machine database key value = .ok database) ∨
    ∃ error, ∀ database, applySetting machine database key value = .error error := by
  unfold applySetting setDatabaseBackend setDatabaseUrl
  split_ifs with isBackend turso postgres isUrl empty
  · exact .inl ⟨isBackend, .turso, fun database => rfl⟩
  · exact .inl ⟨isBackend, .postgres, fun database => rfl⟩
  · exact .inr (.inr (.inr ⟨_, fun database => rfl⟩))
  · exact .inr (.inr (.inr ⟨_, fun database => rfl⟩))
  · exact .inr (.inl ⟨isUrl, value, fun database => rfl⟩)
  · split
    · exact .inr (.inr (.inr ⟨_, fun database => rfl⟩))
    · exact .inr (.inr (.inl fun database => rfl))

theorem take_isOk (state : Collected) (name value : Text) :
    (state.take machine name value).isOk = (Collected.take machine {} name value).isOk := by
  unfold Collected.take
  cases kind : varKind name <;> cases empty : value.isEmpty <;>
    simp only [if_true, if_false, Bool.false_eq_true] <;> try rfl
  next key =>
    split
    · rfl
    · rcases applySetting_cases machine key value with
        ⟨-, backend, applies⟩ | ⟨-, url, applies⟩ | applies | ⟨error, applies⟩ <;>
        rw [applies, applies] <;> rfl

theorem takeAll_isOk (state : Collected) (vars : VarPairs) :
    (state.takeAll machine vars).isOk =
      vars.all fun var => (Collected.take machine {} var.1 var.2).isOk := by
  induction vars generalizing state with
  | nil => rfl
  | cons var vars induction =>
      obtain ⟨name, value⟩ := var
      rw [Collected.takeAll, List.all_cons, ← take_isOk state name value]
      cases taken : state.take machine name value with
      | error error => rfl
      | ok next =>
          rw [← induction next]
          rfl

/-- What a variable does to the database block: it sets one of its two fields, or
nothing. -/
theorem applied_cases (machine : Machine) (var : Text × Text) :
    (varKind var.1 = .setting backendKey ∧ ∃ backend, ∀ database,
      applied machine database var = { database with backend := backend }) ∨
    (varKind var.1 = .setting urlKey ∧ ∃ url, ∀ database,
      applied machine database var = { database with url := some url }) ∨
    ∀ database, applied machine database var = database := by
  cases kind : varKind var.1
  case setting key =>
    have idle (skips : var.2.isEmpty = true ∨
        (decide (key = publicUrlKey) && (machine.publicUrlWarning var.2).isSome) = true)
        (database : DatabaseConfig) : applied machine database var = database := by
      unfold applied
      rw [kind]
      simp only
      rcases skips with empty | dropped
      · rw [if_pos empty]
      · rw [if_pos dropped, ite_self]
    by_cases skips : var.2.isEmpty = true ∨
        (decide (key = publicUrlKey) && (machine.publicUrlWarning var.2).isSome) = true
    · exact .inr (.inr (idle skips))
    · obtain ⟨holds, counts⟩ := not_or.mp skips
      have sets (database : DatabaseConfig) : applied machine database var =
          (applySetting machine database key var.2).toOption.getD database := by
        unfold applied
        rw [kind]
        simp only
        rw [if_neg holds, if_neg counts]
      rcases applySetting_cases machine key var.2 with
        ⟨rfl, backend, applies⟩ | ⟨rfl, url, applies⟩ | applies | ⟨error, applies⟩
      · exact .inl ⟨rfl, backend, fun database => by rw [sets, applies]; rfl⟩
      · exact .inr (.inl ⟨rfl, url, fun database => by rw [sets, applies]; rfl⟩)
      · exact .inr (.inr fun database => by rw [sets, applies]; rfl)
      · exact .inr (.inr fun database => by rw [sets, applies]; rfl)
  all_goals
    refine .inr (.inr fun database => ?_)
    unfold applied
    rw [kind]

theorem applied_comm {left right : Text × Text} (apart : left.1 = right.1 → left = right)
    (database : DatabaseConfig) :
    applied machine (applied machine database left) right =
      applied machine (applied machine database right) left := by
  by_cases same : left = right
  · rw [same]
  · have differ {key : Text} (first : varKind left.1 = .setting key)
        (second : varKind right.1 = .setting key) : False :=
      same (apart ((varKind_setting first).symm.trans (varKind_setting second)))
    rcases applied_cases machine left with
        ⟨leftKind, _, leftSets⟩ | ⟨leftKind, _, leftSets⟩ | leftSets <;>
      rcases applied_cases machine right with
        ⟨rightKind, _, rightSets⟩ | ⟨rightKind, _, rightSets⟩ | rightSets
    · exact (differ leftKind rightKind).elim
    · rw [leftSets, rightSets, rightSets, leftSets]
    · rw [rightSets, rightSets]
    · rw [leftSets, rightSets, rightSets, leftSets]
    · exact (differ leftKind rightKind).elim
    · rw [rightSets, rightSets]
    all_goals rw [leftSets, leftSets]

/-- Two passes over the same variables in different orders. -/
structure SamePass (left right : Collected) : Prop where
  domainVars : left.domainVars.Perm right.domainVars
  originVars : left.originVars.Perm right.originVars
  reviewVars : left.reviewVars.Perm right.reviewVars
  readersVars : left.readersVars.Perm right.readersVars
  appVars : ∀ name, left.appVars.lookup name = right.appVars.lookup name
  database : left.database = right.database

theorem takeAll_perm (perm : order.Perm vars) (distinct : (vars.map Prod.fst).Nodup)
    {left right : Collected} (takenLeft : Collected.takeAll machine {} order = .ok left)
    (takenRight : Collected.takeAll machine {} vars = .ok right) : SamePass left right := by
  obtain ⟨domains, origins, reviews, readers, apps, database⟩ := takeAll_fields takenLeft
  obtain ⟨domains', origins', reviews', readers', apps', database'⟩ := takeAll_fields takenRight
  have held (kind : VarKind) : (heldOf kind order).Perm (heldOf kind vars) := perm.filter _
  refine ⟨?_, ?_, ?_, ?_, ?_, ?_⟩
  · rw [domains, domains']
    exact perm.filter _
  · rw [origins, origins']
    exact held .origin
  · rw [reviews, reviews']
    exact held .review
  · rw [readers, readers']
    exact held .readers
  · intro name
    rw [apps, apps']
    have distinctHeld : ((heldOf .app order).map Prod.fst).Nodup :=
      ((List.filter_sublist.map Prod.fst).nodup ((perm.map Prod.fst).nodup_iff.mpr distinct))
    exact lookup_collect_perm (held .app) distinctHeld name
  · rw [database, database']
    refine perm.foldl_eq' ?_ ({} : Collected).database
    intro one memberOne other memberOther base
    refine applied_comm (fun same => ?_) base
    exact List.inj_on_of_nodup_map distinct (perm.subset memberOne) (perm.subset memberOther) same

theorem githubAppFrom_congr {left right : Map Text}
    (same : ∀ name, left.lookup name = right.lookup name) :
    githubAppFrom machine left = githubAppFrom machine right := by
  have emptyOf {one other : Map Text} (same : ∀ name, one.lookup name = other.lookup name)
      (empty : one.entries.isEmpty = true) : other.entries.isEmpty = true := by
    rw [List.isEmpty_iff] at empty ⊢
    rw [List.eq_nil_iff_forall_not_mem]
    rintro ⟨name, value⟩ member
    have found := AList.mem_lookup_iff.mpr member
    rw [Option.mem_def, ← same, AList.lookup, empty] at found
    cases found
  have empty : left.entries.isEmpty = right.entries.isEmpty :=
    Bool.eq_iff_iff.mpr ⟨emptyOf same, emptyOf fun name => (same name).symm⟩
  unfold githubAppFrom
  simp only [same, empty]

end Crystalline.Environment

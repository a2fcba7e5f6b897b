import CloudberryEtl.Catalog
import CloudberryEtl.LinkChain

/-! `resolve_type` without its recursion bound: the derivation a resolved type has, and the table lookups it made. -/
namespace CloudberryEtl.TypeResolution
open Schema Result Settings Catalog LinkChain

def link (all : List TypeDescriptor) (descriptor : TypeDescriptor) : Option TypeDescriptor :=
  if descriptor.typtype = "d" then descriptor.baseOid.bind (typeOf all)
  else if descriptor.typtype = "b" then descriptor.elementOid.bind (typeOf all)
  else none

def plain (descriptor : TypeDescriptor) : Prop :=
  descriptor.typtype ≠ "e" ∧ descriptor.typtype ≠ "d" ∧ (descriptor.typtype = "b" → descriptor.elementOid = none)

inductive Resolved (all : List TypeDescriptor) : TypeDescriptor → Int → PgType → Prop
  | enum {descriptor typmod name} (named : qualified descriptor.schema descriptor.name = .ok name)
      (kind : descriptor.typtype = "e") : Resolved all descriptor typmod ⟨descriptor.oid,name,.enum descriptor.labels⟩
  | domain {descriptor typmod name base inner} (named : qualified descriptor.schema descriptor.name = .ok name)
      (kind : descriptor.typtype = "d") (linked : descriptor.baseOid.bind (typeOf all) = some base)
      (rest : Resolved all base typmod inner) :
      Resolved all descriptor typmod ⟨descriptor.oid,name,.domain inner descriptor.constraints⟩
  | array {descriptor typmod name element inner} (named : qualified descriptor.schema descriptor.name = .ok name)
      (kind : descriptor.typtype = "b") (linked : descriptor.elementOid.bind (typeOf all) = some element)
      (rest : Resolved all element (-1) inner) : Resolved all descriptor typmod ⟨descriptor.oid,name,.array inner⟩
  | scalar {descriptor typmod name} (named : qualified descriptor.schema descriptor.name = .ok name)
      (kind : plain descriptor) :
      Resolved all descriptor typmod ⟨descriptor.oid,name,scalarKind descriptor.name typmod⟩

section
variable {all : List TypeDescriptor} {descriptor : TypeDescriptor} {typmod : Int} {type : PgType}

theorem typeOfMem {oid : Nat} (found : typeOf all oid = some descriptor) : descriptor ∈ all ∧ descriptor.oid = oid := by
  have here := List.find?_some found
  exact ⟨List.mem_of_find?_eq_some found,by simpa using here⟩

theorem linkMem {other : TypeDescriptor} (linked : link all descriptor = some other) : other ∈ all := by
  unfold link at linked
  split at linked
  · obtain ⟨oid,_,found⟩ := Option.bind_eq_some_iff.mp linked
    exact (typeOfMem found).1
  · split at linked
    · obtain ⟨oid,_,found⟩ := Option.bind_eq_some_iff.mp linked
      exact (typeOfMem found).1
    · contradiction

theorem plainLink (kind : plain descriptor) : link all descriptor = none := by
  obtain ⟨_,notDomain,noElement⟩ := kind
  unfold link
  rw [if_neg notDomain]
  split
  · rename_i base
    simp [noElement base]
  · rfl

theorem enumLink (kind : descriptor.typtype = "e") : link all descriptor = none := by
  simp [link,kind]

theorem resolveTypeSound {depth : Nat} (ok : resolveType all depth descriptor typmod = .ok type) :
    Resolved all descriptor typmod type := by
  induction depth generalizing descriptor typmod type with
  | zero => contradiction
  | succ depth ih =>
    obtain ⟨name,named,ok⟩ := bindOk.mp ok
    dsimp only at ok
    split at ok
    · rename_i isEnum
      cases Except.ok.inj ok
      exact .enum named isEnum
    · rename_i notEnum
      split at ok
      · rename_i isDomain
        split at ok
        · contradiction
        · rename_i base linked
          obtain ⟨inner,rest,ok⟩ := bindOk.mp ok
          cases Except.ok.inj ok
          exact .domain named isDomain linked (ih rest)
      · rename_i notDomain
        split at ok
        · rename_i isArray
          split at ok
          · contradiction
          · rename_i element linked
            obtain ⟨inner,rest,ok⟩ := bindOk.mp ok
            cases Except.ok.inj ok
            exact .array named isArray.1 linked (ih rest)
        · rename_i notArray
          cases Except.ok.inj ok
          have noElement : descriptor.typtype = "b" → descriptor.elementOid = none := by
            intro base
            simpa [base] using notArray
          exact .scalar named ⟨notEnum,notDomain,noElement⟩

theorem resolveTypeComplete {depth steps : Nat} (resolved : Resolved all descriptor typmod type)
    (ends : Ends (link all) descriptor steps) (enough : steps < depth) :
    resolveType all depth descriptor typmod = .ok type := by
  induction resolved generalizing depth steps with
  | enum named kind =>
    cases depth with
    | zero => omega
    | succ depth => simp [resolveType,named,kind,bind,Except.bind]
  | @domain descriptor typmod name base inner named kind linked rest ih =>
    cases depth with
    | zero => omega
    | succ depth =>
      have shape : link all descriptor = descriptor.baseOid.bind (typeOf all) := if_pos kind
      cases ends with
      | here last => simp [shape,linked] at last
      | there next ends =>
        cases Option.some.inj (linked.symm.trans (shape.symm.trans next))
        have below : resolveType all depth base typmod = .ok inner := ih ends (by omega)
        simp [resolveType,named,kind,linked,below,bind,Except.bind]
  | @array descriptor typmod name element inner named kind linked rest ih =>
    cases depth with
    | zero => omega
    | succ depth =>
      have shape : link all descriptor = descriptor.elementOid.bind (typeOf all) := by simp [link,kind]
      have present : descriptor.elementOid.isSome := by
        obtain ⟨oid,same,_⟩ := Option.bind_eq_some_iff.mp linked
        simp [same]
      cases ends with
      | here last => simp [shape,linked] at last
      | there next ends =>
        cases Option.some.inj (linked.symm.trans (shape.symm.trans next))
        have below : resolveType all depth element (-1) = .ok inner := ih ends (by omega)
        simp [resolveType,named,kind,linked,present,below,bind,Except.bind]
  | @scalar descriptor typmod name named kind =>
    cases depth with
    | zero => omega
    | succ depth =>
      obtain ⟨notEnum,notDomain,noElement⟩ := kind
      have notArray : ¬ (descriptor.typtype = "b" ∧ descriptor.elementOid.isSome) := by
        intro both
        simp [noElement both.1] at both
      simp [resolveType,named,notEnum,notDomain,notArray,bind,Except.bind]

theorem resolvedEnds (resolved : Resolved all descriptor typmod type) : ∃ steps, Ends (link all) descriptor steps := by
  induction resolved with
  | enum _ kind => exact ⟨0,.here (enumLink kind)⟩
  | domain _ kind linked _ ih =>
    obtain ⟨steps,ends⟩ := ih
    exact ⟨steps + 1,.there (by simpa [link,kind] using linked) ends⟩
  | array _ kind linked _ ih =>
    obtain ⟨steps,ends⟩ := ih
    exact ⟨steps + 1,.there (by simpa [link,kind] using linked) ends⟩
  | scalar _ kind => exact ⟨0,.here (plainLink kind)⟩

theorem resolveTypeIff :
    resolveType all (all.length + 1) descriptor typmod = .ok type ↔ Resolved all descriptor typmod type := by
  -- The number of descriptors is recursion bound enough, because a chain that ends never comes back to a type.
  constructor
  · exact resolveTypeSound
  · intro resolved
    obtain ⟨steps,ends⟩ := resolvedEnds resolved
    have within := endsWithin (fun _ _ linked => linkMem linked) ends
    exact resolveTypeComplete resolved ends (by omega)

end

end CloudberryEtl.TypeResolution

import HostBridge.Proofs.Declaration.CallForms
import HostBridge.Proofs.Declaration.Members

/-!
# Overloads neither clash nor go missing

The methods of a type come from the members of its class: first the constructor that is implied
where none is written, then one block of declarations for each member, in their order. The block of
a member is its `contribution`, which depends on the blocks before it: a member without default
values adds its declaration whatever was declared before, one with default values adds those of the
ways to call it that do not clash with an earlier declaration.

* `TypeContent.exists_blocks` — the methods of a type are such blocks;
* `TypeContent.overloads_complete` — constructors come first, no overload repeats an earlier
  declaration, and no way to call a member is lost;
* `TypeContent.emitted_iff` — when a member is declared with all its arguments. Here the second rule
  has a consequence that its reason does not ask for: it is meant for the overloads that come from
  default values, but it holds for the declaration that is written as well. Where this one has a
  default value and clashes with an earlier declaration it is dropped,
  `TypeContent.written_declaration_dropped`.
-/

namespace HostBridge

open MethodDeclaration

/-! ### Blocks -/

section Blocks

variable {declared : List MethodDeclaration} {ps : List (Source.Member × MethodDeclaration)}

/-- What each of some members adds. -/
def blocks (declared : List MethodDeclaration) :
    List (Source.Member × MethodDeclaration) → List (List MethodDeclaration)
  | [] => []
  | p :: ps =>
    let block := contribution declared p.1.node p.2
    block :: blocks (declared ++ block) ps

theorem addEach_eq (h : ∀ p ∈ ps, p.2.Fits p.1.node) (declared : List MethodDeclaration) :
    addEach declared ps = declared ++ (blocks declared ps).flatten := by
  induction ps generalizing declared with
  | nil => simp [addEach, blocks]
  | cons p ps ih =>
    have hps := ih (fun q hq => h q (List.mem_cons_of_mem p hq))
      (declared ++ contribution declared p.1.node p.2)
    rw [addEach] at hps
    rw [addEach, List.foldl_cons, addWithVariants_eq (h p List.mem_cons_self), hps, blocks,
      List.flatten_cons, List.append_assoc]

theorem length_blocks (declared : List MethodDeclaration)
    (ps : List (Source.Member × MethodDeclaration)) :
    (blocks declared ps).length = ps.length := by
  induction ps generalizing declared with
  | nil => rfl
  | cons p ps ih => rw [blocks, List.length_cons, List.length_cons, ih]

/-- The block of a member is what it adds after the blocks before it. -/
theorem getElem?_blocks (declared : List MethodDeclaration)
    (ps : List (Source.Member × MethodDeclaration)) (k : Nat) :
    (blocks declared ps)[k]? = ps[k]?.map fun p =>
      contribution (declared ++ ((blocks declared ps).take k).flatten) p.1.node p.2 := by
  induction ps generalizing declared k with
  | nil => rfl
  | cons p ps ih =>
    cases k with
    | zero => simp [blocks]
    | succ k => simp [blocks, ih, List.append_assoc]

/-- What is added for some members are ways to call one of them. -/
theorem exists_of_mem_blocks (h : ∀ p ∈ ps, p.2.Fits p.1.node) {e : MethodDeclaration}
    (he : e ∈ (blocks declared ps).flatten) : ∃ p ∈ ps, e ∈ callForms p.1.node p.2 := by
  obtain ⟨block, hblock, he⟩ := List.mem_flatten.1 he
  obtain ⟨k, hk⟩ := List.mem_iff_getElem?.1 hblock
  rw [getElem?_blocks] at hk
  obtain ⟨p, hp, rfl⟩ := Option.map_eq_some_iff.1 hk
  have hmem := List.mem_of_getElem? hp
  exact ⟨p, hmem, mem_callForms_of_contribution (h p hmem) he⟩

/-- An element of a list of blocks stands in one of them, behind the blocks before that. -/
theorem exists_block_of_split {α : Type} {bs : List (List α)} {before after : List α} {a : α}
    (h : bs.flatten = before ++ a :: after) :
    ∃ k front back, bs[k]? = some (front ++ a :: back) ∧
      before = (bs.take k).flatten ++ front := by
  induction bs generalizing before with
  | nil => simp at h
  | cons b bs ih =>
    rw [List.flatten_cons] at h
    rcases List.append_eq_append_iff.1 h with ⟨rest, rfl, hrest⟩ | ⟨front, rfl, hfront⟩
    · -- the element stands behind the first block
      obtain ⟨k, front, back, hblock, rfl⟩ := ih hrest
      exact ⟨k + 1, front, back, hblock, by simp⟩
    · cases front with
      | nil =>
        have hrest : bs.flatten = [] ++ a :: after := hfront.symm
        obtain ⟨k, front, back, hblock, hbefore⟩ := ih hrest
        exact ⟨k + 1, front, back, hblock, by simpa using hbefore⟩
      | cons a' back =>
        obtain ⟨rfl, -⟩ := List.cons_eq_cons.1 hfront
        exact ⟨0, before, back, rfl, by simp⟩

end Blocks

/-! ### The methods of a type -/

theorem MethodDeclaration.isConstructor_of_mem_impliedConstructors {c : Source.Class}
    {e : MethodDeclaration} (he : e ∈ impliedConstructors c) : e.isConstructor = true := by
  rw [impliedConstructors] at he
  split at he
  · rw [List.mem_singleton.1 he]
    rfl
  · exact absurd he List.not_mem_nil

namespace TypeContent

variable {o : Options} {comments : List Source.Comment} {c : Source.Class} {t : TypeContent}

/-- **The methods of a type, sorted by members.** Behind the constructor that is implied there is
one block for each member, and the declarations in the block of a member are ways to call it. -/
structure InBlocks (o : Options) (comments : List Source.Comment) (c : Source.Class)
    (t : TypeContent) (blocks : List (List MethodDeclaration)) : Prop where
  methods_eq : t.methods = impliedConstructors c ++ blocks.flatten
  length_eq : blocks.length = c.members.length
  declared : ∀ m ∈ c.members, ∃ d, ofMember o comments c m = .ok d
  forms : ∀ (k : Nat) m d block, c.members[k]? = some m → ofMember o comments c m = .ok d →
    blocks[k]? = some block → ∀ e ∈ block, e ∈ callForms m.node d

/-- The blocks, each with what decides what is in it: the declarations before it. -/
structure Accumulates (o : Options) (comments : List Source.Comment) (c : Source.Class)
    (t : TypeContent) (blocks : List (List MethodDeclaration)) : Prop
    extends InBlocks o comments c t blocks where
  block_eq : ∀ (k : Nat) m d, c.members[k]? = some m → ofMember o comments c m = .ok d →
    blocks[k]? = some (contribution (impliedConstructors c ++ (blocks.take k).flatten) m.node d)

/-- A declaration of a member has an argument for each parameter. -/
theorem fits_of_ofMember {m : Source.Member} {d : MethodDeclaration}
    (h : ofMember o comments c m = .ok d) : d.Fits m.node := by
  have hnames := congrArg List.length (ofMember_spec h).1
  rwa [List.length_map, List.length_map] at hnames

theorem exists_blocks (h : ofClass o comments c = .ok t) :
    ∃ blocks, t.Accumulates o comments c blocks := by
  obtain ⟨ps, hmembers, hdeclared, hmethods⟩ := methods_of_ofClass h
  have hfits : ∀ p ∈ ps, p.2.Fits p.1.node := fun p hp => fits_of_ofMember (hdeclared p hp)
  -- the place of a member among the members is that of its declaration
  have hplace : ∀ (k : Nat) m d, c.members[k]? = some m → ofMember o comments c m = .ok d →
      ps[k]? = some (m, d) := by
    intro k m d hm hd
    rw [← hmembers, List.getElem?_map] at hm
    obtain ⟨p, hp, rfl⟩ := Option.map_eq_some_iff.1 hm
    have hd' := hdeclared p (List.mem_of_getElem? hp)
    obtain rfl := Except.ok.inj (hd'.symm.trans hd)
    exact hp
  exact ⟨blocks (impliedConstructors c) ps,
    { methods_eq := by rw [hmethods, addEach_eq hfits]
      length_eq := by rw [length_blocks, ← hmembers, List.length_map]
      declared := fun m hm => by
        rw [← hmembers] at hm
        obtain ⟨p, hp, rfl⟩ := List.mem_map.1 hm
        exact ⟨p.2, hdeclared p hp⟩
      forms := fun k m d block hm hd hblock e he => by
        rw [getElem?_blocks, hplace k m d hm hd, Option.map_some, Option.some.injEq] at hblock
        exact mem_callForms_of_contribution (fits_of_ofMember hd) (hblock ▸ he)
      block_eq := fun k m d hm hd => by
        rw [getElem?_blocks, hplace k m d hm hd, Option.map_some] }⟩

/-- What the members of one sort add is of this sort. -/
theorem isConstructor_of_mem_blocks (sort : Source.Method → Source.Member) {b : Bool}
    (hsort : ∀ m, (sort m).isConstructor = b) {ms : List Source.Method}
    {ps : List (Source.Member × MethodDeclaration)} (hps : ps.map (·.1) = ms.map sort)
    (hdeclared : ∀ p ∈ ps, ofMember o comments c p.1 = .ok p.2)
    {before : List MethodDeclaration} {e : MethodDeclaration}
    (he : e ∈ (blocks before ps).flatten) : e.isConstructor = b := by
  obtain ⟨p, hp, hform⟩ :=
    exists_of_mem_blocks (fun p hp => fits_of_ofMember (hdeclared p hp)) he
  -- a way to call a member is of the same sort as its declaration
  obtain ⟨k, -, rfl⟩ := mem_callForms.1 hform
  obtain ⟨-, -, -, hkind⟩ := ofMember_spec (hdeclared p hp)
  have hmem : p.1 ∈ ms.map sort := hps ▸ List.mem_map_of_mem hp
  obtain ⟨m, -, hm⟩ := List.mem_map.1 hmem
  exact hkind.trans (hm ▸ hsort m)

/-- **The constructors come first**, and a class that is not an interface has one. -/
theorem constructors_first (h : ofClass o comments c = .ok t) :
    t.methods = t.constructors ++ t.methods.filter (fun d => !d.isConstructor) ∧
      (c.isInterface = false → t.constructors ≠ []) := by
  obtain ⟨ps, hmembers, hdeclared, hmethods⟩ := methods_of_ofClass h
  rw [Source.Class.members] at hmembers
  obtain ⟨ks, ms, rfl, hks, hms⟩ := List.map_eq_append_iff.1 hmembers
  have hkdeclared : ∀ p ∈ ks, ofMember o comments c p.1 = .ok p.2 :=
    fun p hp => hdeclared p (List.mem_append_left ms hp)
  have hmdeclared : ∀ p ∈ ms, ofMember o comments c p.1 = .ok p.2 :=
    fun p hp => hdeclared p (List.mem_append_right ks hp)
  rw [addEach_append, addEach_eq fun p hp => fits_of_ofMember (hkdeclared p hp),
    addEach_eq fun p hp => fits_of_ofMember (hmdeclared p hp)] at hmethods
  generalize hfront : impliedConstructors c ++ (blocks (impliedConstructors c) ks).flatten = front
    at hmethods
  generalize hback : (blocks front ms).flatten = back at hmethods
  have hconstructors : ∀ e ∈ front, e.isConstructor = true := by
    intro e he
    rw [← hfront] at he
    rcases List.mem_append.1 he with he | he
    · exact isConstructor_of_mem_impliedConstructors he
    · exact isConstructor_of_mem_blocks .constructor (fun _ => rfl) hks hkdeclared he
  have hothers : ∀ e ∈ back, e.isConstructor = false := by
    intro e he
    rw [← hback] at he
    exact isConstructor_of_mem_blocks .method (fun _ => rfl) hms hmdeclared he
  have hfilter : t.constructors = front := by
    rw [constructors, hmethods, List.filter_append, List.filter_eq_self.2 hconstructors,
      List.filter_eq_nil_iff.2 fun e (he : e ∈ back) => by simp [hothers e he], List.append_nil]
  have hrest : t.methods.filter (fun d => !d.isConstructor) = back := by
    rw [hmethods, List.filter_append,
      List.filter_eq_nil_iff.2 fun e (he : e ∈ front) => by simp [hconstructors e he],
      List.filter_eq_self.2 fun e (he : e ∈ back) => by simp [hothers e he], List.nil_append]
  refine ⟨by rw [hfilter, hrest, hmethods], fun hclass => ?_⟩
  rw [hfilter, ← hfront]
  cases ks with
  | nil =>
    have hnone : c.constructors = [] := List.map_eq_nil_iff.1 hks.symm
    simp [impliedConstructors, hnone, hclass]
  | cons p ks =>
    -- a constructor is written, so none is implied, and the first one has nothing to clash with
    have himplied : impliedConstructors c = [] := by
      cases hwritten : c.constructors with
      | nil => simp [hwritten] at hks
      | cons m ms => simp [impliedConstructors, hwritten]
    have hfirst : p.2 ∈ contribution [] p.1.node p.2 :=
      (mem_contribution_iff (fits_of_ofMember (hkdeclared p List.mem_cons_self))).2
        fun _ e he => absurd he List.not_mem_nil
    rw [himplied, List.nil_append, blocks, List.flatten_cons]
    exact List.ne_nil_of_mem (List.mem_append_left _ hfirst)

/-- There is nothing before the constructor that is implied. -/
theorem eq_nil_of_impliedConstructors_eq {front back : List MethodDeclaration}
    {e : MethodDeclaration} (h : impliedConstructors c = front ++ e :: back) : front = [] := by
  rw [impliedConstructors] at h
  split at h
  · cases front with
    | nil => rfl
    | cons e' front => simp at h
  · simp at h

namespace Accumulates

variable {blocks : List (List MethodDeclaration)}

/-- Each block belongs to a member, which has a declaration. -/
theorem exists_member (h : t.Accumulates o comments c blocks) {k : Nat}
    {block : List MethodDeclaration} (hk : blocks[k]? = some block) :
    ∃ m d, c.members[k]? = some m ∧ ofMember o comments c m = .ok d := by
  have hlt := (List.getElem?_eq_some_iff.1 hk).1
  rw [h.length_eq] at hlt
  obtain ⟨d, hd⟩ := h.declared _ (List.getElem_mem hlt)
  exact ⟨_, d, List.getElem?_eq_getElem hlt, hd⟩

/-- **No overload repeats an earlier declaration.** A declaration that clashes with an earlier one
is all that a member without default values declares. -/
theorem no_defaults_of_clash (h : t.Accumulates o comments c blocks)
    {before after : List MethodDeclaration} {e e' : MethodDeclaration}
    (hsplit : t.methods = before ++ e :: after) (he' : e' ∈ before)
    (hclash : e'.clashesWith e = true) :
    ∃ k m, c.members[k]? = some m ∧ m.node.hasDefaults = false ∧ blocks[k]? = some [e] ∧
      before = impliedConstructors c ++ (blocks.take k).flatten := by
  rw [h.methods_eq, ← List.flatten_cons] at hsplit
  obtain ⟨k, front, back, hk, rfl⟩ := exists_block_of_split hsplit
  cases k with
  | zero =>
    obtain rfl := eq_nil_of_impliedConstructors_eq (Option.some.inj hk)
    exact absurd he' List.not_mem_nil
  | succ k =>
    rw [List.getElem?_cons_succ] at hk
    obtain ⟨m, d, hm, hd⟩ := h.exists_member hk
    have hblock := h.block_eq k m d hm hd
    rw [hk, Option.some.injEq] at hblock
    rw [List.take_succ_cons, List.flatten_cons] at he' ⊢
    cases hdefaults : m.node.hasDefaults with
    | false =>
      -- the block has one element only
      rw [contribution_of_no_defaults hdefaults] at hblock
      obtain ⟨rfl, rfl⟩ : front = [] ∧ back = [] := by
        cases front with
        | nil => exact ⟨rfl, (List.cons.inj hblock).2⟩
        | cons e₀ front => simp at hblock
      exact ⟨k, m, hm, hdefaults, hk, List.append_nil _⟩
    | true =>
      rw [contribution_of_defaults hdefaults] at hblock
      rcases List.mem_append.1 he' with he' | he'
      · -- what clashes with an earlier declaration was left out
        have hmem : e ∈ front ++ e :: back := List.mem_append_right front List.mem_cons_self
        rw [hblock] at hmem
        have hfree := (List.mem_filter.1 hmem).2
        rw [Bool.not_eq_true', List.any_eq_false] at hfree
        exact absurd hclash (hfree e' he')
      · -- the ways to call one member do not clash
        have hpairwise := (callForms_pairwise (fits_of_ofMember hd)).filter
          fun e => !(impliedConstructors c ++ (blocks.take k).flatten).any (·.clashesWith e)
        rw [← hblock, List.pairwise_append] at hpairwise
        have hfree := hpairwise.2.2 e' he' e List.mem_cons_self
        rw [hclash] at hfree
        cases hfree

/-- What is before a block, and what is in it, is among the methods. -/
theorem mem_methods (h : t.Accumulates o comments c blocks) {k : Nat}
    {block : List MethodDeclaration} (hk : blocks[k]? = some block) {e : MethodDeclaration}
    (he : e ∈ impliedConstructors c ++ (blocks.take k).flatten ∨ e ∈ block) : e ∈ t.methods := by
  rw [h.methods_eq]
  rcases he with he | he
  · refine List.mem_append.2 ((List.mem_append.1 he).imp_right fun he => ?_)
    obtain ⟨b, hb, he⟩ := List.mem_flatten.1 he
    exact List.mem_flatten.2 ⟨b, List.mem_of_mem_take hb, he⟩
  · exact List.mem_append_right _ (List.mem_flatten.2 ⟨block, List.mem_of_getElem? hk, he⟩)

/-- **No way to call a member is lost**: what is left out clashes with what is there. -/
theorem exists_of_callForm (h : t.Accumulates o comments c blocks) {m : Source.Member}
    {d : MethodDeclaration} (hm : m ∈ c.members) (hd : ofMember o comments c m = .ok d)
    (hdefaults : m.node.hasDefaults = true) {n : Nat} (hn : n ≤ m.node.defaults) :
    ∃ e ∈ t.methods, e.selector = d.selector ∧
      e.argumentTypeNames = (callForm m.node d n).argumentTypeNames := by
  obtain ⟨k, hk⟩ := List.mem_iff_getElem?.1 hm
  have hblock := h.block_eq k m d hk hd
  by_cases hfree : ∃ e ∈ impliedConstructors c ++ (blocks.take k).flatten,
      e.clashesWith (callForm m.node d n) = true
  · obtain ⟨e, he, hclash⟩ := hfree
    exact ⟨e, h.mem_methods hblock (Or.inl he), clashesWith_iff.1 hclash⟩
  · refine ⟨callForm m.node d n, h.mem_methods hblock (Or.inr ?_), rfl, rfl⟩
    rw [contribution_of_defaults hdefaults, List.mem_filter, Bool.not_eq_true', List.any_eq_false]
    exact ⟨mem_callForms.2 ⟨n, hn, rfl⟩, fun e he hclash => hfree ⟨e, he, hclash⟩⟩

end Accumulates

/-- **Overloads neither clash nor go missing.** In the methods of a type the constructors come
first, and there is one unless the class is an interface. The methods come from the members in their
order, `InBlocks`: a member without default values has exactly one declaration; a declaration that
clashes with an earlier one is that of such a member; and each way to call a member with default
values is declared, by the member itself or by an earlier one. -/
theorem overloads_complete (h : ofClass o comments c = .ok t) :
    (t.methods = t.constructors ++ t.methods.filter (fun d => !d.isConstructor) ∧
        (c.isInterface = false → t.constructors ≠ [])) ∧
      ∃ blocks, t.InBlocks o comments c blocks ∧
        (∀ (k : Nat) m d, c.members[k]? = some m → ofMember o comments c m = .ok d →
          m.node.hasDefaults = false → blocks[k]? = some [d]) ∧
        (∀ before e after e', t.methods = before ++ e :: after → e' ∈ before →
          e'.selector = e.selector ∧ e'.argumentTypeNames = e.argumentTypeNames →
          ∃ k m, c.members[k]? = some m ∧ m.node.hasDefaults = false ∧ blocks[k]? = some [e] ∧
            before = impliedConstructors c ++ (blocks.take k).flatten) ∧
        ∀ m ∈ c.members, ∀ d, ofMember o comments c m = .ok d → m.node.hasDefaults = true →
          ∀ n ≤ m.node.defaults,
            (callForm m.node d n).arguments.length + n = m.node.parameters.length ∧
            ∃ e ∈ t.methods, e.selector = d.selector ∧
              e.argumentTypeNames = (callForm m.node d n).argumentTypeNames := by
  obtain ⟨blocks, hblocks⟩ := exists_blocks h
  refine ⟨constructors_first h, blocks, hblocks.toInBlocks, fun k m d hm hd hnone => ?_,
    fun before e after e' hsplit he' hsame => ?_, fun m hm d hd hdefaults n hn => ⟨?_, ?_⟩⟩
  · rw [hblocks.block_eq k m d hm hd, contribution_of_no_defaults hnone]
  · exact hblocks.no_defaults_of_clash hsplit he' (clashesWith_iff.2 hsame)
  · have hfits := fits_of_ofMember hd
    exact (length_callForm hfits hn).trans hfits
  · exact hblocks.exists_of_callForm hm hd hdefaults hn

end TypeContent

namespace Source

/-- A parameter of a primitive type. -/
def Parameter.int (name : String) : Parameter := plain name (.named "int") 0 0

/-- A class whose constructor has a default value, with two methods. What is written as the second
method is also a way to call the first one. -/
def Class.overloaded : Class where
  name := "Calls"
  constructors := [{ name := "<init>", parameters := [.int "a", (Parameter.int "b").defaulted] }]
  methods :=
    [{ name := "foo", parameters := [.int "x", (Parameter.int "y").defaulted] },
      { name := "foo", parameters := [.int "z"] }]

end Source

/-- The method that is written is declared in its own block, although it clashes with the overload
before it. -/
theorem TypeContent.overloads_complete_overloaded :
    ∃ (t : TypeContent) (blocks : List (List MethodDeclaration)),
      ofClass {} [] .overloaded = .ok t ∧ t.constructors ≠ [] ∧
      t.InBlocks {} [] .overloaded blocks ∧
      (∃ d, ofMember {} [] .overloaded (.method ⟨"foo", .none, [.int "z"], .object, [], false, {}⟩) =
        .ok d ∧ blocks[2]? = some [d]) ∧
      t.methods.map (fun d => (d.selector, d.arguments.map (·.name))) =
        [("Calls", ["a", "b"]), ("Calls", ["a"]), ("foo", ["x", "y"]), ("foo", ["x"]),
          ("foo", ["z"])] := by
  obtain ⟨t, ht, hmethods⟩ : ∃ t, ofClass {} [] .overloaded = .ok t ∧
      t.methods.map (fun d => (d.selector, d.arguments.map (·.name))) =
        [("Calls", ["a", "b"]), ("Calls", ["a"]), ("foo", ["x", "y"]), ("foo", ["x"]),
          ("foo", ["z"])] :=
    exists_of_map_toOption (by decide +kernel)
  obtain ⟨⟨-, hconstructors⟩, blocks, hblocks, hwritten, -, -⟩ := overloads_complete ht
  obtain ⟨d, hd⟩ := hblocks.declared (.method ⟨"foo", .none, [.int "z"], .object, [], false, {}⟩)
    (List.mem_of_getElem? (i := 2) rfl)
  exact ⟨t, blocks, ht, hconstructors (by decide), hblocks, ⟨d, hd, hwritten 2 _ d rfl hd rfl⟩,
    hmethods⟩

/-! ### The declaration that is written -/

/-- **When a member is declared as it is written**, with all its arguments, its documentation and
its place in the file: always if it has no default values, and otherwise only if no earlier
declaration has the same name and the same types of arguments. -/
theorem TypeContent.emitted_iff {o : Options} {comments : List Source.Comment} {c : Source.Class}
    {t : TypeContent} (h : ofClass o comments c = .ok t) :
    ∃ blocks, t.InBlocks o comments c blocks ∧
      ∀ (k : Nat) m d, c.members[k]? = some m → ofMember o comments c m = .ok d →
        (d.arguments.map (·.name) = m.node.parameters.map (·.name) ∧
          d.javadoc = findJavadoc comments m.node.span.line ∧
          d.range = .ofMethod m.node.span d.javadoc) ∧
        ∃ block, blocks[k]? = some block ∧
          (d ∈ block ↔ (m.node.hasDefaults = true →
            ∀ e ∈ impliedConstructors c ++ (blocks.take k).flatten,
              ¬ (e.selector = d.selector ∧ e.argumentTypeNames = d.argumentTypeNames))) := by
  obtain ⟨blocks, hblocks⟩ := exists_blocks h
  refine ⟨blocks, hblocks.toInBlocks, fun k m d hm hd => ?_⟩
  obtain ⟨hnames, hjavadoc, hrange, -⟩ := ofMember_spec hd
  refine ⟨⟨hnames, hjavadoc, hrange⟩, _, hblocks.block_eq k m d hm hd, ?_⟩
  rw [mem_contribution_iff (fits_of_ofMember hd)]
  refine imp_congr_right fun _ => forall₂_congr fun e _ => ?_
  rw [← clashesWith_iff, Bool.not_eq_true]

/-- A class with three methods, of which the first and the last have a default value. The last one
has the name and the types of the one before. -/
def Source.Class.withDefaults : Class where
  name := "Defaults"
  methods :=
    [{ name := "bar", parameters := [(Parameter.int "c").defaulted] },
      { name := "foo", parameters := [.int "a"] },
      { name := "foo", parameters := [(Parameter.int "b").defaulted] }]

/-- Of two methods with a default value the one is declared as it is written, and the other is not,
because there is a declaration with its name and types. -/
theorem TypeContent.emitted_iff_withDefaults :
    ∃ (t : TypeContent) (blocks : List (List MethodDeclaration)),
      ofClass {} [] .withDefaults = .ok t ∧ t.InBlocks {} [] .withDefaults blocks ∧
      (∃ d block, ofMember {} [] .withDefaults
          (.method { name := "bar", parameters := [(Source.Parameter.int "c").defaulted] }) = .ok d ∧
        blocks[0]? = some block ∧ d ∈ block) ∧
      (∃ d block, ofMember {} [] .withDefaults
          (.method { name := "foo", parameters := [.int "a"] }) = .ok d ∧
        blocks[1]? = some block ∧ d ∈ block) ∧
      ∃ d block, ofMember {} [] .withDefaults
          (.method { name := "foo", parameters := [(Source.Parameter.int "b").defaulted] }) = .ok d ∧
        blocks[2]? = some block ∧ d ∉ block := by
  obtain ⟨t, ht, -⟩ : ∃ t, ofClass {} [] .withDefaults = .ok t ∧ () = () :=
    exists_of_map_toOption (by decide +kernel)
  obtain ⟨blocks, hblocks, hmember⟩ := emitted_iff ht
  -- the members are declared with these names and types
  obtain ⟨bar, hbar, hbarCall⟩ : ∃ d, ofMember {} [] .withDefaults
      (.method { name := "bar", parameters := [(Source.Parameter.int "c").defaulted] }) = .ok d ∧
        (d.selector, d.argumentTypeNames) = ("bar", ["int"]) :=
    exists_of_map_toOption (by decide +kernel)
  obtain ⟨foo, hfoo, hfooCall⟩ : ∃ d, ofMember {} [] .withDefaults
      (.method { name := "foo", parameters := [.int "a"] }) = .ok d ∧
        (d.selector, d.argumentTypeNames) = ("foo", ["int"]) :=
    exists_of_map_toOption (by decide +kernel)
  obtain ⟨foo', hfoo', hfooCall'⟩ : ∃ d, ofMember {} [] .withDefaults
      (.method { name := "foo", parameters := [(Source.Parameter.int "b").defaulted] }) = .ok d ∧
        (d.selector, d.argumentTypeNames) = ("foo", ["int"]) :=
    exists_of_map_toOption (by decide +kernel)
  obtain ⟨-, block₀, hblock₀, hiff₀⟩ := hmember 0 _ bar rfl hbar
  obtain ⟨-, block₁, hblock₁, hiff₁⟩ := hmember 1 _ foo rfl hfoo
  obtain ⟨-, block₂, hblock₂, hiff₂⟩ := hmember 2 _ foo' rfl hfoo'
  have hin₁ : foo ∈ block₁ := hiff₁.2 fun hdefaults => by cases hdefaults
  refine ⟨t, blocks, ht, hblocks, ⟨bar, block₀, hbar, hblock₀, hiff₀.2 fun _ e he hsame => ?_⟩,
    ⟨foo, block₁, hfoo, hblock₁, hin₁⟩, foo', block₂, hfoo', hblock₂, fun hin₂ => ?_⟩
  · -- only the constructor that is implied comes before
    rw [List.take_zero, List.flatten_nil, List.append_nil] at he
    obtain rfl := List.mem_singleton.1 he
    exact absurd (hsame.1.trans (congrArg Prod.fst hbarCall)) (by decide +kernel)
  · have hbefore : foo ∈ (blocks.take 2).flatten := by
      refine List.mem_flatten.2 ⟨block₁, List.mem_of_getElem? (i := 1) ?_, hin₁⟩
      rw [List.getElem?_take_of_lt (by decide), hblock₁]
    obtain ⟨hselector, htypes⟩ := Prod.mk.inj (hfooCall.trans hfooCall'.symm)
    exact hiff₂.1 hin₂ rfl foo (List.mem_append_right _ hbefore) ⟨hselector, htypes⟩

/-- A class with two methods of one name and one type of argument, which has a default value in the
second one. -/
def Source.Class.clashing : Class where
  name := "Clash"
  methods :=
    [{ name := "foo", parameters := [.int "a"] },
      { name := "foo", parameters := [(Parameter.int "b").defaulted] }]

/-- **A written declaration that is dropped.** The second method can be declared, with its argument
`b`, but there is no declaration with such an argument, only the overload without it. -/
theorem TypeContent.written_declaration_dropped :
    ∃ (t : TypeContent) (d : MethodDeclaration),
      ofClass {} [] .clashing = .ok t ∧
      ofMember {} [] .clashing
        (.method ⟨"foo", .none, [(Source.Parameter.int "b").defaulted], .object, [], false, {}⟩) =
        .ok d ∧
      d.arguments.map (·.name) = ["b"] ∧ ∀ e ∈ t.methods, e.arguments.map (·.name) ≠ ["b"] := by
  obtain ⟨t, ht, hmethods⟩ : ∃ t, ofClass {} [] .clashing = .ok t ∧
      t.methods.map (fun d => d.arguments.map (·.name)) = [[], ["a"], []] :=
    exists_of_map_toOption (by decide +kernel)
  obtain ⟨d, hd, hnames⟩ : ∃ d, ofMember {} [] .clashing
      (.method ⟨"foo", .none, [(Source.Parameter.int "b").defaulted], .object, [], false, {}⟩) =
        .ok d ∧ d.arguments.map (·.name) = ["b"] :=
    exists_of_map_toOption (by decide +kernel)
  refine ⟨t, d, ht, hd, hnames, fun e he hb => ?_⟩
  have hmem := List.mem_map_of_mem (f := fun d : MethodDeclaration => d.arguments.map (·.name)) he
  rw [hmethods, hb] at hmem
  exact absurd hmem (by decide)

end HostBridge

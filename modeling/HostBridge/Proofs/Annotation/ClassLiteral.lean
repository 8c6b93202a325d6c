import HostBridge.Annotation.Build
import HostBridge.Proofs.Text.Dotted
import HostBridge.Proofs.TypeReference.Tokens

/-!
# Class literals of annotations

The class of a literal such as `org.junit.Runner.class` comes as a chain of properties, from its
last name inwards to the variable at its start. There are two readings of such a chain: its text,
which is put together from the variable outwards, and its names one by one, which are what the host
gets. They agree whatever the names are, with dots in them or empty.

* `HasLinks` — the names of a chain, from the variable on;
* `text?_eq_some_iff` — the chains with a text are those that start at a variable, and the text is
  that of their names;
* `TypeReference.ofChain_spec` — the reference for a chain of names;
* `Annotation.build_classLiteral` — the annotation with a class literal.
-/

namespace HostBridge

open List (Forall₂)
open Text (AreWrittenFrom)

/-! ### Chains of properties -/

namespace Source.Expression

variable {e : Expression} {links : List String} {text : String}

/-- **A chain of properties** that starts at a variable, with its names from the variable on. -/
inductive HasLinks : Expression → List String → Prop
  | identifier (name : String) (start stop : Int) : HasLinks (identifier name start stop) [name]
  | property {object : Expression} {links : List String} (name : String) (start stop : Int)
    (h : HasLinks object links) : HasLinks (property object name start stop) (links ++ [name])

theorem HasLinks.ne_nil (h : HasLinks e links) : links ≠ [] := by
  cases h with
  | identifier => exact List.cons_ne_nil _ _
  | property name start stop h => exact List.concat_ne_nil name _

theorem HasLinks.chain_eq (h : HasLinks e links) : e.chain = links := by
  induction h with
  | identifier => rw [chain]
  | property name start stop h ih => rw [chain, ih]

theorem HasLinks.text?_eq (h : HasLinks e links) : e.text? = some (Dotted.join links) := by
  induction h with
  | identifier => rw [text?, Dotted.join, String.intercalate_singleton]
  | property name start stop h ih =>
    rw [text?, ih, Option.map_some, Dotted.join_append_singleton h.ne_nil]

/-- **The chains with a text** are those that start at a variable. -/
theorem text?_eq_some_iff :
    e.text? = some text ↔ ∃ links, HasLinks e links ∧ Dotted.join links = text := by
  constructor
  · intro h
    induction e using text?.induct generalizing text with
    | case1 object name start stop ih =>
      rw [text?, Option.map_eq_some_iff] at h
      obtain ⟨front, hfront, rfl⟩ := h
      obtain ⟨links, hlinks, rfl⟩ := ih hfront
      exact ⟨links ++ [name], hlinks.property name start stop,
        Dotted.join_append_singleton hlinks.ne_nil name⟩
    | case2 name start stop =>
      rw [text?] at h
      obtain rfl := Option.some.inj h
      exact ⟨[name], .identifier name start stop, String.intercalate_singleton⟩
    | case3 e hproperty hidentifier =>
      rw [text?] at h
      · cases h
      · exact hproperty
      · exact hidentifier
  · rintro ⟨links, hlinks, rfl⟩
    exact hlinks.text?_eq

end Source.Expression

/-! ### References for chains -/

/-- **The reference for a chain of names** has them for its tokens, with the positions of their
layout, and reaches from the first to the last of these. -/
theorem TypeReference.ofChain_spec {tokens : List String} (hne : tokens ≠ []) (start stop : Int) :
    (ofChain tokens start stop).typeName = Dotted.join tokens ∧
      (ofChain tokens start stop).shape.tokens = tokens ∧
      (ofChain tokens start stop).shape.positions = Position.layout tokens start stop ∧
      (ofChain tokens start stop).start = start ∧
      (ofChain tokens start stop).stop = Position.lastStop (Position.layout tokens start stop) := by
  have hfirst := Position.firstStart_layout hne start stop
  match tokens, hne with
  | [token], _ =>
    -- a single name is given the only position of its layout
    obtain ⟨p, hp⟩ := List.length_eq_one_iff.1 (Position.length_layout [token] start stop)
    rw [hp] at hfirst ⊢
    rw [ofChain, hp]
    exact ⟨String.intercalate_singleton.symm, rfl, rfl, hfirst, rfl⟩
  | s :: t :: ts, _ => exact ⟨rfl, rfl, rfl, hfirst, rfl⟩

/-! ### Annotations -/

section

variable {o : Options} {a : Source.AnnotationUse} {object : Source.Expression} {start stop : Int}

/-- The shape of an annotation whose only member is a class. -/
theorem AnnotationShape.classify_classLiteral
    (hmember : a.members = [⟨"value", .property object "class" start stop⟩]) :
    classify a = .classLiteral object stop := by
  rw [classify, ofSingleValue?, hmember]
  rfl

/-- **A class literal names what is written.** If the type of the annotation is built, so is the
annotation, with a reference that prints the text of the chain and has its names for tokens. If the
chain has a range, the reference is as long as the text, which has to end within 32 bits, and where
the names are written one after the other, each position covers its name. -/
theorem Annotation.build_classLiteral {type : TypeReference} {text : String}
    (hmember : a.members = [⟨"value", .property object "class" start stop⟩])
    (htext : object.text? = some text) (htype : TypeReference.build o a.type = .ok type) :
    ∃ links r, object.HasLinks links ∧
      build o a = .ok (some ⟨some (.classLiteral stop r), type.withRange a.start a.stop, a.start,
        a.start + a.type.simpleName.utf8ByteSize⟩) ∧
      r.typeName = text ∧ r.shape.tokens = links ∧ r.shape.positions.length = links.length ∧
      (object.start < object.stop →
        r.start = object.start ∧
        (object.start + text.utf8ByteSize ≤ 0x80000000 →
          r.stop = object.start + text.utf8ByteSize - 1) ∧
        ∀ (file : ByteArray) (n : Nat), object.start = n → AreWrittenFrom file n links →
          Forall₂ (fun s p => Position.Covers p file s) links r.shape.positions) := by
  obtain ⟨links, hlinks, rfl⟩ := Source.Expression.text?_eq_some_iff.1 htext
  obtain ⟨hname, htokens, hpositions, hstart, hstop⟩ :=
    TypeReference.ofChain_spec hlinks.ne_nil object.start object.stop
  refine ⟨links, .ofChain links object.start object.stop, hlinks, ?_, hname, htokens, ?_,
    fun hlt => ⟨hstart, fun _ => ?_, fun file n hn hwritten => ?_⟩⟩
  · rw [build, AnnotationShape.classify_classLiteral hmember]
    dsimp only
    rw [htype, hlinks.chain_eq]
    rfl
  · rw [hpositions, Position.length_layout]
  · rw [hstop, Position.lastStop_layout hlinks.ne_nil, if_pos hlt]
  · rw [hpositions, Position.layout, if_pos hlt, hn]
    exact Position.covers_layoutFrom hwritten

end

/-- The chain in `@Foo(a.ü.B.class)`. -/
def Source.Expression.umlauts : Expression :=
  .property (.property (.identifier "a" 5 6) "ü" 5 9) "B" 5 11

/-- The annotation `@Foo(a.ü.B.class)`. -/
def Source.AnnotationUse.withUmlauts : AnnotationUse :=
  (bare ((Descriptor.named "Foo").placedAt 1 4) 0 18).withMember "value"
    (.property .umlauts "class" 5 17)

/-- Each name of a chain has its position in the file, also behind one with more bytes than
characters. -/
theorem Annotation.build_classLiteral_umlauts :
    ∃ type r, TypeReference.build {} Source.AnnotationUse.withUmlauts.type = .ok type ∧
      build {} .withUmlauts = .ok (some ⟨some (.classLiteral 17 r), type.withRange 0 18, 0, 3⟩) ∧
      r.typeName = "a.ü.B" ∧ r.shape.tokens = ["a", "ü", "B"] ∧ r.start = 5 ∧ r.stop = 10 ∧
      Forall₂ (fun s p => Position.Covers p "@Foo(a.ü.B.class)".toUTF8 s) ["a", "ü", "B"]
        r.shape.positions := by
  have hwritten : Text.IsWrittenAt "@Foo(a.ü.B.class)".toUTF8 5 (Dotted.join ["a", "ü", "B"]) := by
    unfold Text.IsWrittenAt
    decide +kernel
  obtain ⟨type, htype⟩ :
      ∃ type, TypeReference.build {} Source.AnnotationUse.withUmlauts.type = .ok type := ⟨_, rfl⟩
  have htext : Source.Expression.umlauts.text? = some "a.ü.B" := by decide +kernel
  obtain ⟨links, r, hlinks, hbuild, hname, htokens, -, hplaces⟩ :=
    build_classLiteral (a := .withUmlauts) rfl htext htype
  obtain rfl : ["a", "ü", "B"] = links := hlinks.chain_eq
  obtain ⟨hstart, hstop, hcovers⟩ := hplaces (by decide)
  exact ⟨type, r, htype, hbuild, hname, htokens, hstart, (hstop (by decide)).trans (by decide),
    hcovers _ 5 rfl (Text.areWrittenFrom_of_join (List.cons_ne_nil _ _) hwritten)⟩

end HostBridge

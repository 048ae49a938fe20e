import Mathlib.Data.Set.Basic
import Mathlib.Logic.Relation

set_option autoImplicit false

/-!
# Evaluation by components

Facts are about nodes, and some of them carry a key that links their node to every other node with
the key. Rules that read no further than a component give the same answer on any facts that agree
on a closed set of nodes.
-/
namespace Wyrebox.ComponentEvaluation

/-- The node a fact is about and the key by which it links, if it does. -/
structure Linking (Fact Node Key : Type) where
  node : Fact → Node
  key : Fact → Option Key

section
variable {Fact Node Key : Type} (linking : Linking Fact Node Key)

/-- The facts about the nodes of a set. -/
def about (nodes : Set Node) (facts : Set Fact) : Set Fact := {fact ∈ facts | linking.node fact ∈ nodes}

/-- Facts about the two nodes carry the same key. -/
def Shares (facts : Set Fact) (a b : Node) : Prop :=
  ∃ fact ∈ facts, ∃ other ∈ facts, ∃ key, linking.node fact = a ∧ linking.node other = b ∧
    linking.key fact = some key ∧ linking.key other = some key

def component (facts : Set Fact) (a : Node) : Set Node := {b | Relation.ReflTransGen (Shares linking facts) a b}

def Closed (nodes : Set Node) (facts : Set Fact) : Prop :=
  ∀ a ∈ nodes, ∀ b, Shares linking facts a b → b ∈ nodes

/-- What is derived of a node depends on the facts about it alone. -/
def NodeLocal (derives : Set Fact → Node → Prop) : Prop :=
  ∀ facts a, derives facts a ↔ derives (about linking {a} facts) a

/-- What is derived of a node depends on the facts of its component alone. -/
def ComponentLocal (derives : Set Fact → Node → Prop) : Prop :=
  ∀ facts a, derives facts a ↔ derives (about linking (component linking facts a) facts) a

variable {linking} {nodes : Set Node} {facts facts' : Set Fact} {a b : Node} {derives : Set Fact → Node → Prop}

lemma about_subset : about linking nodes facts ⊆ facts := fun _ h => h.1

lemma Shares.mono (hsubset : facts ⊆ facts') (h : Shares linking facts a b) : Shares linking facts' a b := by
  obtain ⟨fact, hfact, other, hother, hkey⟩ := h
  exact ⟨fact, hsubset hfact, other, hsubset hother, hkey⟩

lemma Shares.symm (h : Shares linking facts a b) : Shares linking facts b a := by
  obtain ⟨fact, hfact, other, hother, key, hnode, hnode', hkey, hkey'⟩ := h
  exact ⟨other, hother, fact, hfact, key, hnode', hnode, hkey', hkey⟩

lemma Closed.mono (h : Closed linking nodes facts') (hsubset : facts ⊆ facts') : Closed linking nodes facts :=
  fun a ha b hshares => h a ha b (hshares.mono hsubset)

lemma Closed.component_subset (h : Closed linking nodes facts) (ha : a ∈ nodes) :
    component linking facts a ⊆ nodes := by
  intro b hb
  induction hb with
  | refl => exact ha
  | tail _ hshares ih => exact h _ ih _ hshares

lemma component_closed : Closed linking (component linking facts a) facts :=
  fun _ hb _ hshares => Relation.ReflTransGen.tail hb hshares

lemma Shares.about (h : Shares linking facts a b) (ha : a ∈ nodes) (hb : b ∈ nodes) :
    Shares linking (about linking nodes facts) a b := by
  obtain ⟨fact, hfact, other, hother, key, rfl, rfl, hkey⟩ := h
  exact ⟨fact, ⟨hfact, ha⟩, other, ⟨hother, hb⟩, key, rfl, rfl, hkey⟩

/-- A closed set of nodes determines the components in it. -/
lemma Closed.component_about (h : Closed linking nodes facts) (ha : a ∈ nodes) :
    component linking (about linking nodes facts) a = component linking facts a := by
  ext b
  constructor
  · exact fun hb => Relation.ReflTransGen.mono (fun _ _ hshares => Shares.mono about_subset hshares) a b hb
  · intro hb
    induction hb with
    | refl => exact .refl
    | @tail c d hc hshares ih =>
      have hmem : c ∈ nodes := h.component_subset ha hc
      exact ih.tail (hshares.about hmem (h c hmem d hshares))

lemma about_about_of_subset {inner : Set Node} (h : inner ⊆ nodes) :
    about linking inner (about linking nodes facts) = about linking inner facts := by
  ext fact
  exact ⟨fun hfact => ⟨hfact.1.1, hfact.2⟩, fun hfact => ⟨⟨hfact.1, h hfact.2⟩, hfact.2⟩⟩

theorem ComponentLocal.congr (hlocal : ComponentLocal linking derives) (ha : a ∈ nodes)
    (hclosed : Closed linking nodes facts) (hclosed' : Closed linking nodes facts')
    (hsame : about linking nodes facts = about linking nodes facts') : derives facts a ↔ derives facts' a := by
  have hpart : ∀ facts, Closed linking nodes facts →
      (derives facts a ↔ derives (about linking (component linking (about linking nodes facts) a)
        (about linking nodes facts)) a) := by
    intro facts hclosed
    rw [hlocal facts a, hclosed.component_about ha, about_about_of_subset (hclosed.component_subset ha)]
  rw [hpart facts hclosed, hpart facts' hclosed', hsame]

theorem NodeLocal.congr (hlocal : NodeLocal linking derives) (ha : a ∈ nodes)
    (hsame : about linking nodes facts = about linking nodes facts') : derives facts a ↔ derives facts' a := by
  have hpart : ∀ facts, derives facts a ↔ derives (about linking {a} (about linking nodes facts)) a := by
    intro facts
    rw [hlocal facts a, about_about_of_subset (fun b hb => hb ▸ ha)]
  rw [hpart facts, hpart facts', hsame]

end
end Wyrebox.ComponentEvaluation

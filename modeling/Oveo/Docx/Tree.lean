import Oveo.Lib.Text

/-! # Document trees

The trees `lxml` builds of a document part, as far as `docx.py` reads and changes them.  A node
keeps its identity while it is moved; a node without a number was made while the tree was patched. -/

namespace Oveo.Docx

open Oveo.Lib

/-- The names `docx.py` knows, of their namespaces. -/
inductive Tag where
  | body
  | p
  | pPr
  | r
  | rPr
  | t
  | tab
  | br
  | cr
  | noBreakHyphen
  | softHyphen
  | hyperlink
  | fldChar
  | instrText
  | fldSimple
  | tc
  | ins
  | del
  | moveFrom
  | moveTo
  | alternateContent
  /-- A comment or a processing instruction, which has a tail but neither children nor text of the document. -/
  | comment
  | other (name : Str)
deriving DecidableEq

inductive Identity where
  /-- A node of the template. -/
  | own (number : Nat)
  /-- The second half of a run of the template. -/
  | split (number : Nat)
  | made
deriving DecidableEq

structure Element where
  identity : Identity
  tag : Tag
  attributes : List (Str × Str)
  text : Str
  tail : Str
deriving DecidableEq

/-- Siblings, each with its children. -/
inductive Forest where
  | nil
  | node (element : Element) (children next : Forest)
deriving DecidableEq

/-- `element.get(name)`. -/
def Element.get? (element : Element) (name : Str) : Option Str :=
  (element.attributes.find? fun entry => entry.1 == name).map Prod.snd

namespace Forest

def append : Forest → Forest → Forest
  | nil, second => second
  | node element children next, second => node element children (next.append second)

/-- The siblings with their children. -/
def nodes : Forest → List (Element × Forest)
  | nil => []
  | node element children next => (element, children) :: next.nodes

/-- All elements, in document order. -/
def elements : Forest → List Element
  | nil => []
  | node element children next => element :: (children.elements ++ next.elements)

@[simp] theorem append_nil (forest : Forest) : forest.append nil = forest := by
  induction forest with
  | nil => rfl
  | node element children next _ inductionHypothesis => rw [append, inductionHypothesis]

theorem append_assoc (first second third : Forest) : (first.append second).append third = first.append (second.append third) := by
  induction first with
  | nil => rfl
  | node element children next _ inductionHypothesis => rw [append, append, append, inductionHypothesis]

@[simp] theorem nodes_append (first second : Forest) : (first.append second).nodes = first.nodes ++ second.nodes := by
  induction first with
  | nil => rfl
  | node element children next _ inductionHypothesis => rw [append, nodes, nodes, inductionHypothesis, List.cons_append]

@[simp] theorem elements_append (first second : Forest) : (first.append second).elements = first.elements ++ second.elements := by
  induction first with
  | nil => rfl
  | node element children next _ inductionHypothesis =>
    rw [append, elements, elements, inductionHypothesis, List.cons_append, List.append_assoc]

end Forest

/-! ## What belongs to a paragraph -/

/-- An element within a paragraph, with the tags of its ancestors there, the nearest first. -/
structure Node where
  ancestors : List Tag
  element : Element
  children : Forest
deriving DecidableEq

/-- `iter` below a paragraph, for the elements that `_belongs_to` it: the nodes of a nested paragraph
belong to that one. -/
def ownFrom (ancestors : List Tag) : Forest → List Node
  | .nil => []
  | .node element children next =>
    ⟨ancestors, element, children⟩ ::
      ((if element.tag = .p then [] else ownFrom (element.tag :: ancestors) children) ++ ownFrom ancestors next)

/-- The nodes of a child of a paragraph that belong to the paragraph, from the child itself on. -/
def ownOf (child : Element × Forest) : List Node := ownFrom [] (.node child.1 child.2 .nil)

/-- The nodes that belong to a paragraph with these children. -/
def ownNodes (children : Forest) : List Node := ownFrom [] children

theorem ownNodes_eq_flatMap (children : Forest) : ownNodes children = children.nodes.flatMap ownOf := by
  induction children with
  | nil => rfl
  | node element children next _ inductionHypothesis =>
    rw [Forest.nodes, List.flatMap_cons, ← inductionHypothesis, ownNodes, ownFrom, ownOf, ownFrom, ownFrom, List.append_nil]
    rfl

/-! ## Inline items -/

def breakType : Str := str "w:type"

/-- The characters of `_INLINE_CHARACTERS`. -/
def inlineCharacter? : Tag → Option CodePoint
  | .tab => some 0x09
  | .br => some 0x0A
  | .cr => some 0x0A
  | .noBreakHyphen => some 0x2011
  | .softHyphen => some 0xAD
  | _ => none

/-- Is the tag one of `_INLINE_TAGS`? -/
def Tag.isInline (tag : Tag) : Bool := tag == .t || (inlineCharacter? tag).isSome

/-- `_is_layout_break`. -/
def Element.isLayoutBreak (element : Element) : Bool :=
  element.tag == .br && (element.get? breakType == some (str "page") || element.get? breakType == some (str "column"))

/-- `_item_text`. -/
def Element.itemText (element : Element) : Str :=
  if element.tag = .t then element.text else (inlineCharacter? element.tag).toList

/-- `_is_inline_item`, of an element with an inline tag that belongs to the paragraph. -/
def Element.isInlineItem (parent : Tag) (element : Element) : Bool :=
  element.tag == .t || ((inlineCharacter? element.tag).isSome && parent == .r && !element.isLayoutBreak)

namespace Node

variable (node : Node)

def parent : Tag := node.ancestors.headD .p

def isInlineItem : Bool := node.element.isInlineItem node.parent

def isText : Bool := node.element.tag == .t

def itemText : Str := node.element.itemText

/-- `_instruction_text`: all character content of a node. -/
def instructionText : Str := node.element.text ++ node.children.nodes.flatMap fun child => child.1.tail

end Node

/-- `"".join(_item_text(item) for item in items)`. -/
def textOf (items : List Node) : Str := items.flatMap Node.itemText

@[simp] theorem textOf_append (first second : List Node) : textOf (first ++ second) = textOf first ++ textOf second :=
  List.flatMap_append

/-- The loop of `_has_interior_layout_break`. -/
def interiorBreakFrom (textSeen breakAfterText : Bool) : List Node → Bool
  | [] => false
  | node :: nodes =>
    if node.element.isLayoutBreak then interiorBreakFrom textSeen (breakAfterText || textSeen) nodes
    else if node.isInlineItem && !node.itemText.isEmpty then
      if breakAfterText then true else interiorBreakFrom true breakAfterText nodes
    else interiorBreakFrom textSeen breakAfterText nodes

/-- `_has_interior_layout_break`. -/
def hasInteriorLayoutBreak (children : Forest) : Bool := interiorBreakFrom false false (ownNodes children)

end Oveo.Docx

import Mathlib.Data.List.NodupEquivFin
import MarkdownExcerpt.Proofs.Pieces
import MarkdownExcerpt.Proofs.Text.Trim

/-! Where the nodes of an excerpt come from. Under any policies that join no text, each of them is a
node of the document, cut at most in its value and in its children, and the nodes of the excerpt are
in the same order and stand in one another as they do in the document. -/
namespace MarkdownExcerpt

/-- What a cut can make of the value of a node. -/
inductive ValueFrom (config : Config) (kind : NodeKind) : Option Json → Option Json → Prop
  | same (value : Option Json) : ValueFrom config kind value value
  /-- A leaf can keep a part of its text. -/
  | part {whole part : String} (hleaf : kind.isLeaf = true) (h : part.toList <:+: whole.toList) :
      ValueFrom config kind (some (.str part)) (some (.str whole))
  /-- In plain text the blanks in that part can be normalized. -/
  | normalized {whole part : String} {cs : List Char} (hkind : kind = .leaf .text)
      (hpolicy : config.text.whitespace = .normalize) (h : cs <:+: whole.toList)
      (hpart : part.toList = Text.normalize cs) :
      ValueFrom config kind (some (.str part)) (some (.str whole))

/-- A node as a cut can leave it, whatever its children are. -/
structure Node.CutFrom (config : Config) (copy source : Node) : Prop where
  type : copy.type? = source.type?
  others : ∀ key, key ≠ "children" → key ≠ "value" →
    copy.attribute? key = source.attribute? key
  value : ValueFrom config source.kind (copy.attribute? "value") (source.attribute? "value")

/-- The children that are walked, which are those of any node but a leaf. -/
def Node.content (node : Node) : List Child := if node.bearsText then [] else node.children

/-- What a cut can make of siblings: each is gone with all that is in it, or stays around what is
left of its content, or gives way to that. -/
inductive Child.LeftFrom (config : Config) : List Child → List Child → Prop
  | nil : LeftFrom config [] []
  | drop {copies rest : List Child} (child : Child) (h : LeftFrom config copies rest) :
      LeftFrom config copies (child :: rest)
  | stray {copies rest : List Child} (value : Json) (h : LeftFrom config copies rest) :
      LeftFrom config (.stray value :: copies) (.stray value :: rest)
  | keep {copy source : Node} {copies rest : List Child} (hself : copy.CutFrom config source)
      (hcontent : LeftFrom config copy.content source.content) (h : LeftFrom config copies rest) :
      LeftFrom config (.node copy :: copies) (.node source :: rest)
  | splice {source : Node} {inner copies rest : List Child} (hleaf : source.bearsText = false)
      (hcontent : LeftFrom config inner source.children) (h : LeftFrom config copies rest) :
      LeftFrom config (inner ++ copies) (.node source :: rest)

/-- What a cut can make of a node: nothing, the node around what is left of its content, or only
that. -/
inductive Outcome.LeftFrom (config : Config) (source : Node) : Outcome → Prop
  | nothing : LeftFrom config source .nothing
  | one {copy : Node} (hself : copy.CutFrom config source)
      (hcontent : Child.LeftFrom config copy.content source.content) :
      LeftFrom config source (.one copy)
  | many {nodes : List Node} (isolated : Bool) (hleaf : source.bearsText = false)
      (hcontent : Child.LeftFrom config (nodes.map Child.node) source.children) :
      LeftFrom config source (.many nodes isolated)

namespace Visit

/-- The node of the one visit is a proper ancestor of that of the other. -/
def IsAbove (above below : Visit) : Prop := above.path <+: below.path ∧ above.path ≠ below.path

/-- No node of the first visits stands in one of the second, or the other way around. -/
def Apart (first second : List Visit) : Prop :=
  ∀ visit ∈ first, ∀ other ∈ second, ¬visit.path <+: other.path ∧ ¬other.path <+: visit.path

/-- Visits of an excerpt with the visits of the document that they come from. -/
structure Embeds (config : Config) (copies sources : List Visit)
    (pairs : List (Visit × Visit)) : Prop where
  copies_eq : pairs.map Prod.fst = copies
  sublist : (pairs.map Prod.snd).Sublist sources
  cutFrom : ∀ pair ∈ pairs, pair.1.node.CutFrom config pair.2.node
  above_iff : ∀ pair ∈ pairs, ∀ other ∈ pairs,
    pair.1.path <+: other.1.path ↔ pair.2.path <+: other.2.path

namespace Embeds

variable {config : Config} {copies sources others : List Visit} {pairs : List (Visit × Visit)}

lemma fst_mem (h : Embeds config copies sources pairs) {pair : Visit × Visit}
    (hp : pair ∈ pairs) : pair.1 ∈ copies := by
  rw [← h.copies_eq]
  exact List.mem_map_of_mem hp

lemma snd_mem (h : Embeds config copies sources pairs) {pair : Visit × Visit}
    (hp : pair ∈ pairs) : pair.2 ∈ sources :=
  h.sublist.mem (List.mem_map_of_mem hp)

lemma mono (h : Embeds config copies sources pairs) (hsub : sources.Sublist others) :
    Embeds config copies others pairs :=
  ⟨h.copies_eq, h.sublist.trans hsub, h.cutFrom, h.above_iff⟩

lemma append {copies' sources' : List Visit} {pairs' : List (Visit × Visit)}
    (h : Embeds config copies sources pairs) (h' : Embeds config copies' sources' pairs')
    (hcopies : Apart copies copies') (hsources : Apart sources sources') :
    Embeds config (copies ++ copies') (sources ++ sources') (pairs ++ pairs') := by
  refine ⟨by rw [List.map_append, h.copies_eq, h'.copies_eq], ?_, ?_, ?_⟩
  · rw [List.map_append]
    exact h.sublist.append h'.sublist
  · intro pair hp
    rcases List.mem_append.mp hp with hp | hp
    · exact h.cutFrom pair hp
    · exact h'.cutFrom pair hp
  · intro pair hp other ho
    rcases List.mem_append.mp hp with hp | hp <;> rcases List.mem_append.mp ho with ho | ho
    · exact h.above_iff pair hp other ho
    · exact iff_of_false (hcopies _ (h.fst_mem hp) _ (h'.fst_mem ho)).1
        (hsources _ (h.snd_mem hp) _ (h'.snd_mem ho)).1
    · exact iff_of_false (hcopies _ (h.fst_mem ho) _ (h'.fst_mem hp)).2
        (hsources _ (h.snd_mem ho) _ (h'.snd_mem hp)).2
    · exact h'.above_iff pair hp other ho

/-- A node goes in front of what is in it. -/
lemma cons {copy source : Visit} (h : Embeds config copies sources pairs)
    (hself : copy.node.CutFrom config source.node)
    (hcopies : ∀ visit ∈ copies, copy.IsAbove visit)
    (hsources : ∀ visit ∈ sources, source.IsAbove visit) :
    Embeds config (copy :: copies) (source :: sources) ((copy, source) :: pairs) := by
  have hnot {above below : Visit} (habove : above.IsAbove below) :
      ¬below.path <+: above.path := fun hback =>
    habove.2 (habove.1.eq_of_length_le hback.length_le)
  refine ⟨by rw [List.map_cons, h.copies_eq], ?_, ?_, ?_⟩
  · rw [List.map_cons]
    exact h.sublist.cons_cons source
  · intro pair hp
    rcases List.mem_cons.mp hp with rfl | hp
    · exact hself
    · exact h.cutFrom pair hp
  · intro pair hp other ho
    rcases List.mem_cons.mp hp with rfl | hp <;> rcases List.mem_cons.mp ho with rfl | ho
    · exact iff_of_true (List.prefix_refl _) (List.prefix_refl _)
    · exact iff_of_true (hcopies _ (h.fst_mem ho)).1 (hsources _ (h.snd_mem ho)).1
    · exact iff_of_false (hnot (hcopies _ (h.fst_mem hp))) (hnot (hsources _ (h.snd_mem hp)))
    · exact h.above_iff pair hp other ho

/-- Pairs of visits are an embedding of the one walk into the other. -/
theorem exists_strictMono (h : Embeds config copies sources pairs) :
    ∃ origin : Fin copies.length → Fin sources.length, StrictMono origin ∧
      (∀ i : Fin copies.length, copies[i].node.CutFrom config sources[origin i].node) ∧
      ∀ i j : Fin copies.length,
        copies[i].IsAbove copies[j] ↔ sources[origin i].IsAbove sources[origin j] := by
  obtain ⟨rfl, hsublist, hcut, habove⟩ := h
  obtain ⟨embedding, hget⟩ := List.sublist_iff_exists_fin_orderEmbedding_get_eq.mp hsublist
  have hlength : (pairs.map Prod.fst).length = (pairs.map Prod.snd).length := by simp
  have hpair (i : Fin (pairs.map Prod.fst).length) : ∃ pair ∈ pairs,
      (pairs.map Prod.fst)[i] = pair.1 ∧ sources[embedding (i.cast hlength)] = pair.2 := by
    have hi : i.val < pairs.length := by simpa using i.isLt
    refine ⟨pairs[i.val], List.getElem_mem hi, by simp, ?_⟩
    have hsource := hget (i.cast hlength)
    simp only [List.get_eq_getElem, List.getElem_map, Fin.val_cast] at hsource
    exact hsource.symm
  refine ⟨fun i => embedding (i.cast hlength), ?_, fun i => ?_, fun i j => ?_⟩
  · intro i j hij
    exact embedding.strictMono hij
  · obtain ⟨pair, hp, hcopy, hsource⟩ := hpair i
    rw [hcopy, hsource]
    exact hcut pair hp
  · obtain ⟨pair, hp, hcopy, hsource⟩ := hpair i
    obtain ⟨other, ho, hcopy', hsource'⟩ := hpair j
    have hforth := habove pair hp other ho
    have hback := habove other ho pair hp
    have heq : pair.1.path = other.1.path ↔ pair.2.path = other.2.path := by
      have hmutual (first second : List Nat) :
          first = second ↔ first <+: second ∧ second <+: first := antisymm_iff.symm
      rw [hmutual, hmutual, hforth, hback]
    rw [hcopy, hsource, hcopy', hsource', IsAbove, IsAbove, hforth, ne_eq, ne_eq, heq]

end Embeds
end Visit

namespace Child

lemma visits_append (path : List Nat) (index : Nat) (start : Int) (first second : List Child) :
    Child.visits path index start (first ++ second) =
      Child.visits path index start first ++
        Child.visits path (index + first.length) (start + lengthOfList first) second := by
  induction first generalizing index start with
  | nil => simp [Child.visits, lengthOfList]
  | cons child rest ih =>
    cases child <;>
      simp [Child.visits, lengthOfList, Child.length, ih, Nat.add_assoc, Nat.add_comm 1,
        Int.add_assoc]

lemma visits_node (path : List Nat) (index : Nat) (start : Int) (node : Node) :
    Child.visits path index start [.node node] = node.visits (path ++ [index]) start := by
  simp [Child.visits]

lemma exists_index_of_mem_visits {path : List Nat} {index : Nat} {start : Int}
    {children : List Child} {visit : Visit} (h : visit ∈ Child.visits path index start children) :
    ∃ i, index ≤ i ∧ i < index + children.length ∧ path ++ [i] <+: visit.path := by
  induction children generalizing index start with
  | nil => simp [Child.visits] at h
  | cons child rest ih =>
    rw [List.length_cons]
    cases child with
    | stray value =>
      obtain ⟨i, hle, hlt, hbelow⟩ := ih h
      exact ⟨i, by omega, by omega, hbelow⟩
    | node child =>
      rcases List.mem_append.mp h with h | h
      · exact ⟨index, by omega, by omega, (Node.visit_bounds h).1⟩
      · obtain ⟨i, hle, hlt, hbelow⟩ := ih h
        exact ⟨i, by omega, by omega, hbelow⟩

/-- Of two siblings neither stands in the other. -/
lemma apart_visits (path : List Nat) (index : Nat) (s t : Int) (first second : List Child) :
    Visit.Apart (Child.visits path index s first)
      (Child.visits path (index + first.length) t second) := by
  intro visit hv other ho
  obtain ⟨i, -, hi, hvisit⟩ := exists_index_of_mem_visits hv
  obtain ⟨j, hj, -, hother⟩ := exists_index_of_mem_visits ho
  constructor
  · intro hprefix
    have hindex := Seat.index_eq_of_isPrefix (hvisit.trans hprefix) hother
    omega
  · intro hprefix
    have hindex := Seat.index_eq_of_isPrefix hvisit (hother.trans hprefix)
    omega

lemma isAbove_of_mem_visits {path : List Nat} {index : Nat} {start : Int} {children : List Child}
    {visit : Visit} (h : visit ∈ Child.visits path index start children) (node : Node)
    (span : Span) : Visit.IsAbove ⟨path, node, span⟩ visit := by
  obtain ⟨i, -, -, hbelow⟩ := exists_index_of_mem_visits h
  refine ⟨(List.prefix_append path [i]).trans hbelow, ?_⟩
  rintro rfl
  exact Seat.not_isPrefix hbelow

end Child

/-- A node is walked before its content. -/
lemma Node.visits_eq_content (path : List Nat) (start : Int) (node : Node) :
    node.visits path start =
      ⟨path, node, node.spanFrom start⟩ :: Child.visits path 0 start node.content := by
  rw [visits_eq, content]
  split <;> simp [Child.visits]

/-- A node that stays comes from the node, and what is in it from what is in that. -/
lemma Visit.Embeds.visits {config : Config} {copy source : Node} {path place : List Nat}
    {s t : Int} {pairs : List (Visit × Visit)} (h : Visit.Embeds config
      (Child.visits path 0 s copy.content) (Child.visits place 0 t source.content) pairs)
    (hself : copy.CutFrom config source) :
    Visit.Embeds config (copy.visits path s) (source.visits place t)
      ((⟨path, copy, copy.spanFrom s⟩, ⟨place, source, source.spanFrom t⟩) :: pairs) := by
  rw [Node.visits_eq_content, Node.visits_eq_content]
  exact h.cons hself (fun visit hv => Child.isAbove_of_mem_visits hv _ _)
    (fun visit hv => Child.isAbove_of_mem_visits hv _ _)

namespace Child.LeftFrom

variable {config : Config} {copies sources : List Child}

/-- Wherever siblings and what is left of them stand, the walk of the one is embedded in that of the
other. -/
theorem exists_embeds (h : LeftFrom config copies sources) :
    ∀ (path place : List Nat) (i j : Nat) (s t : Int), ∃ pairs,
      Visit.Embeds config (Child.visits path i s copies) (Child.visits place j t sources)
        pairs := by
  induction h with
  | nil =>
    intro path place i j s t
    exact ⟨[], rfl, List.Sublist.refl _, by simp, by simp⟩
  | @drop copies rest child h ih =>
    intro path place i j s t
    obtain ⟨pairs, hembeds⟩ := ih path place i (j + 1) s (t + child.length)
    refine ⟨pairs, hembeds.mono ?_⟩
    have hsplit := Child.visits_append place j t [child] rest
    simp only [lengthOfList, Nat.add_zero] at hsplit
    rw [← List.singleton_append, hsplit]
    exact List.sublist_append_right _ _
  | stray value h ih =>
    intro path place i j s t
    exact ih path place (i + 1) (j + 1) s t
  | @keep copy source copies rest hself hcontent h ihcontent ih =>
    intro path place i j s t
    obtain ⟨inner, hinner⟩ := ihcontent (path ++ [i]) (place ++ [j]) 0 0 s t
    obtain ⟨outer, houter⟩ := ih path place (i + 1) (j + 1) (s + copy.length) (t + source.length)
    refine ⟨_, (hinner.visits hself).append houter ?_ ?_⟩
    · rw [← visits_node]
      exact apart_visits path i s _ [.node copy] copies
    · rw [← visits_node]
      exact apart_visits place j t _ [.node source] rest
  | @splice source inner copies rest hleaf hcontent h ihcontent ih =>
    intro path place i j s t
    obtain ⟨pairs, hinner⟩ := ihcontent path (place ++ [j]) i 0 s t
    obtain ⟨outer, houter⟩ := ih path place (i + inner.length) (j + 1) (s + lengthOfList inner)
      (t + source.length)
    have hbelow : (Child.visits (place ++ [j]) 0 t source.children).Sublist
        (source.visits (place ++ [j]) t) := by
      rw [Node.visits_eq, hleaf, if_neg Bool.false_ne_true]
      exact List.sublist_cons_self _ _
    rw [visits_append]
    refine ⟨_, (hinner.mono hbelow).append houter (apart_visits path i s _ inner copies) ?_⟩
    rw [← visits_node]
    exact apart_visits place j t _ [.node source] rest

end Child.LeftFrom

/-- What is left of a node goes before what is left of the siblings after it. -/
lemma Outcome.LeftFrom.children {config : Config} {source : Node} {outcome : Outcome}
    (h : outcome.LeftFrom config source) {copies rest : List Child}
    (hrest : Child.LeftFrom config copies rest) :
    Child.LeftFrom config (outcome.nodes.map Child.node ++ copies) (.node source :: rest) := by
  cases h with
  | nothing => exact .drop _ hrest
  | one hself hcontent => exact .keep hself hcontent hrest
  | many isolated hleaf hcontent => exact .splice hleaf hcontent hrest

namespace Node

variable {config : Config} {window : Span} {start : Int} {node : Node}

lemma cutFrom_self (config : Config) (node : Node) : node.CutFrom config node :=
  ⟨rfl, fun _ _ _ => rfl, .same _⟩

lemma cutFrom_withChildren (config : Config) (node : Node) (children : List Node) :
    (node.withChildren children).CutFrom config node := by
  have hattribute (key : String) (hkey : key ≠ "children") :
      (node.withChildren children).attribute? key = node.attribute? key := by
    rw [attribute?_withChildren, if_neg hkey.symm]
  refine ⟨type?_withChildren children node, fun key hkey _ => hattribute key hkey, ?_⟩
  rw [hattribute "value" (by decide)]
  exact .same _

/-- A text that is not empty is the value of the node. -/
lemma attribute?_value_of_text (h : node.text ≠ "") :
    node.attribute? "value" = some (.str node.text) := by
  unfold text at h ⊢
  cases hvalue : node.attribute? "value" with
  | none => simp [hvalue] at h
  | some value =>
    cases value with
    | str value => simp [Json.text?]
    | _ => simp [hvalue, Json.text?] at h

lemma valueFrom_visibleValue (config : Config) (window span : Span) (kind : LeafKind)
    (node : Node) : ValueFrom config (.leaf kind)
      (some (.str (String.ofList (Treatment.visibleValue config window span kind node))))
      (some (.str node.text)) := by
  have hpiece := Text.piece_isInfix node.text.toList (window.start - span.start).toNat
    (window.stop - span.start).toNat
  cases kind with
  | text =>
    by_cases hpolicy : config.text.whitespace = .normalize
    · refine .normalized rfl hpolicy hpiece ?_
      rw [String.toList_ofList, Treatment.visibleValue, hpolicy]
      rfl
    · refine .part rfl ?_
      rw [String.toList_ofList]
      exact (Text.clean_isInfix hpolicy _ _ _).trans hpiece
  | inlineCode =>
    refine .part rfl ?_
    rw [String.toList_ofList]
    exact hpiece
  | code =>
    refine .part rfl ?_
    rw [String.toList_ofList]
    exact hpiece

/-- What is left of a leaf that the window covers in part is a part of its text, normalized if the
policy is that. -/
lemma cutFrom_withValue {kind : LeafKind} (hkind : node.kind = .leaf kind)
    (hpart : node.IsPartial window start) :
    (node.withValue (String.ofList
      (Treatment.visibleValue config window (node.spanFrom start) kind node))).CutFrom
        config node := by
  have hleaf : node.bearsText = true := bearsText_of_leaf hkind
  have htext : node.text ≠ "" := by
    intro hempty
    have hlength := hpart.length_pos
    rw [← length_characters, characters_of_bearsText hleaf, hempty] at hlength
    simp at hlength
  refine ⟨type?_withValue _ node, fun key _ hkey => ?_, ?_⟩
  · rw [attribute?_withValue, if_neg hkey.symm]
  · rw [attribute?_withValue, if_pos rfl, attribute?_value_of_text htext, hkind]
    exact valueFrom_visibleValue config window _ kind node

lemma leftFrom_content (config : Config) (node : Node) :
    Child.LeftFrom config node.content node.content := by
  have hlist : ∀ children : List Child,
      (∀ child ∈ Child.nodes children, Child.LeftFrom config child.content child.content) →
        Child.LeftFrom config children children := by
    intro children h
    induction children with
    | nil => exact .nil
    | cons child rest ih =>
      cases child with
      | stray value => exact .stray value (ih h)
      | node child =>
        exact .keep (cutFrom_self config child) (h child (by simp))
          (ih fun c hm => h c (by simp [hm]))
  induction node using Node.inductionOn with
  | step node ih =>
    unfold content
    split
    · exact .nil
    · exact hlist node.children ih

/-- Wherever the node starts, what comes out of it is what a cut can make of it. -/
def LeavesRest (config : Config) (window : Span) (node : Node) : Prop :=
  ∀ start : Int, (node.outcome config window start).LeftFrom config node

lemma leftFrom_outcomes {children : List Child}
    (h : ∀ child ∈ Child.nodes children, child.LeavesRest config window) (start : Int) :
    Child.LeftFrom config
      (((outcomes config window start (Child.nodes children)).flatMap Outcome.nodes).map Child.node)
      children := by
  induction children generalizing start with
  | nil => exact .nil
  | cons child rest ih =>
    cases child with
    | stray value => exact .drop _ (ih h start)
    | node child =>
      rw [Child.nodes_node, outcomes, List.flatMap_cons, List.map_append]
      exact (h child (by simp) start).children (ih (fun c hm => h c (by simp [hm])) _)

lemma leftFrom_one_self (config : Config) (node : Node) :
    (Outcome.one node).LeftFrom config node :=
  .one (cutFrom_self config node) (leftFrom_content config node)

/-- A node stays around what is left of its children. -/
lemma leftFrom_withChildren (hleaf : node.bearsText = false) {children : List Node}
    (h : Child.LeftFrom config (children.map Child.node) node.children) :
    (Outcome.one (node.withChildren children)).LeftFrom config node := by
  refine .one (cutFrom_withChildren config node children) ?_
  have hcopy : (node.withChildren children).content = children.map Child.node := by
    rw [content, bearsText_withChildren, hleaf, if_neg Bool.false_ne_true]
    rfl
  have hsource : node.content = node.children := by simp [content, hleaf]
  rwa [hcopy, hsource]

theorem leavesRest (hapart : config.text.mergeAdjacentText = false) (window : Span)
    (node : Node) : node.LeavesRest config window := by
  induction node using Node.inductionOn with
  | step node ih =>
    intro start
    have hrest : Child.LeftFrom config ((node.rebuilt config window start).map Child.node)
        node.children := by
      rw [rebuilt, hapart, Outcome.assemble_false]
      exact leftFrom_outcomes ih start
    have hrebuild (hleaf : node.bearsText = false) (evenEmpty : Bool) :
        (Treatment.emit node (node.rebuilt config window start)
          (.rebuild evenEmpty)).LeftFrom config node := by
      simp only [Treatment.emit]
      split
      · exact .nothing
      · exact leftFrom_withChildren hleaf hrest
    cases hseen : (node.spanFrom start).misses window with
    | true =>
      rw [outcome_of_misses hseen]
      exact .nothing
    | false =>
      have htreated := node.treated config hseen
      rw [outcome_eq]
      generalize (node.decision config window start).treatment = treatment at htreated
      cases htreated with
      | leftOut h => exact .nothing
      | excluded hpart h => exact .nothing
      | leaf hleaf h => exact leftFrom_one_self config node
      | cut hkind hpart h =>
        have hleaf : node.bearsText = true := bearsText_of_leaf hkind
        simp only [Treatment.emit]
        split
        · exact .nothing
        · refine .one (cutFrom_withValue hkind hpart) ?_
          simpa [content, hleaf] using Child.LeftFrom.nil
      | atomic hkind => exact leftFrom_one_self config node
      | bare hkind hbare => exact leftFrom_one_self config node
      | list hkind => exact hrebuild (bearsText_of_list hkind) false
      | container hleaf hlist hatomic hparent h => exact hrebuild hleaf _
      | spliced hpart h =>
        simp only [Treatment.emit, Outcome.content]
        split
        · exact .nothing
        · exact .many _ (bearsText_of_splices h) hrest

/-- The node at the top gives way to its content, which then stands under a new root. -/
def IsReplaced (config : Config) (window : Span) (node : Node) : Prop :=
  node.IsPartial window 0 ∧ config.splices node.kind = true

instance (config : Config) (window : Span) (node : Node) :
    Decidable (node.IsReplaced config window) :=
  inferInstanceAs (Decidable ((_ = false ∧ _ = false) ∧ _ = true))

/-- The walk of the tree of an excerpt, without a root that is no node of the document. -/
def visitsWithin (config : Config) (window : Span) (node tree : Node) : List Visit :=
  let visits := (tree.walk 0 {}).1.map Step.visit
  if node.IsReplaced config window then visits.tail else visits

/-- The walk of the tree that comes out of a node comes from the walk of the node. -/
lemma exists_embeds_tree? (hapart : config.text.mergeAdjacentText = false) {tree : Node}
    (h : (node.outcome config window 0).tree? = some tree) :
    ∃ pairs, Visit.Embeds config (node.visitsWithin config window tree)
      ((node.walk 0 {}).1.map Step.visit) pairs := by
  have hrest := node.leavesRest hapart window 0
  rw [visitsWithin, walk_fresh, walk_fresh]
  cases hout : node.outcome config window 0 with
  | nothing => simp [hout, Outcome.tree?] at h
  | one single =>
    rw [hout] at h hrest
    obtain rfl : single = tree := by simpa [Outcome.tree?] using h
    cases hrest with
    | one hself hcontent =>
      obtain ⟨pairs, hembeds⟩ := hcontent.exists_embeds [] [] 0 0 0 0
      rw [if_neg fun hgives => not_givesWay_of_one hout ⟨hgives.1.2, hgives.2⟩]
      exact ⟨_, hembeds.visits hself⟩
  | many nodes isolated =>
    rw [hout] at h hrest
    obtain rfl : rootOf nodes = tree := by simpa [Outcome.tree?] using h
    have hroot : (rootOf nodes).visits [] 0 = ⟨[], rootOf nodes, (rootOf nodes).spanFrom 0⟩ ::
        Child.visits [] 0 0 (nodes.map Child.node) := visits_eq_content [] 0 (rootOf nodes)
    cases hrest with
    | many _ hleaf hcontent =>
      obtain ⟨pairs, hembeds⟩ := hcontent.exists_embeds [] [] 0 0 0 0
      have hbelow : (Child.visits [] 0 0 node.children).Sublist (node.visits [] 0) := by
        rw [visits_eq, hleaf, if_neg Bool.false_ne_true]
        exact List.sublist_cons_self _ _
      have hgives : node.IsReplaced config window :=
        splices_of_treatment (treatment_of_many hout)
      rw [if_pos hgives, hroot, List.tail_cons]
      exact ⟨pairs, hembeds.mono hbelow⟩

/-- The nodes of an excerpt are nodes of the document, each of them once and in the same order; they
stand in one another as they do there, and beside their children no more than the values of leaves
is cut. -/
theorem embeds_excerpt (hapart : config.text.mergeAdjacentText = false) (number : Nat)
    (range : Range) (node : Node) :
    ∃ excerpt, (node.excerpt config number range {}).1 = .ok excerpt ∧
      ∀ tree ∈ excerpt.node,
        let copies := node.visitsWithin config (range.window node) tree
        let sources := (node.walk 0 {}).1.map Step.visit
        ∃ origin : Fin copies.length → Fin sources.length, StrictMono origin ∧
          (∀ i : Fin copies.length, copies[i].node.CutFrom config sources[origin i].node) ∧
          ∀ i j : Fin copies.length,
            copies[i].IsAbove copies[j] ↔ sources[origin i].IsAbove sources[origin j] := by
  refine ⟨_, excerpt_fresh config number range node, fun tree htree => ?_⟩
  suffices hpairs : ∃ pairs, Visit.Embeds config
      (node.visitsWithin config (range.window node) tree)
      ((node.walk 0 {}).1.map Step.visit) pairs by
    obtain ⟨pairs, hembeds⟩ := hpairs
    exact hembeds.exists_strictMono
  by_cases hrange : range.start < range.stopWithin node.length
  · rw [node_excerptAlone hrange] at htree
    exact exists_embeds_tree? hapart htree
  · -- Only a document without characters is its own excerpt, and no window covers it in part.
    rw [node_excerptAlone_of_le (by omega)] at htree
    split at htree
    · next hempty =>
      obtain rfl : node = tree := by simpa using htree
      have hwhole : ¬node.IsReplaced config (range.window node) := fun hgives =>
        not_isPartial_of_length_eq_zero hempty.1 hgives.1
      obtain ⟨pairs, hembeds⟩ := (leftFrom_content config node).exists_embeds [] [] 0 0 0 0
      rw [visitsWithin, if_neg hwhole, walk_fresh]
      exact ⟨_, hembeds.visits (cutFrom_self config node)⟩
    · simp at htree

/-- The emphasis and the paragraph in it are gone, and the text that is left of them stands in the
root, which it stands in before as well. -/
theorem embeds_excerpt_article :
    piecePolicies.text.mergeAdjacentText = false ∧
      ∃ excerpt tree, (article.excerpt piecePolicies 0 ⟨3, some 8, by decide⟩ {}).1 = .ok excerpt ∧
        excerpt.node = some tree ∧
        tree = wrapperOf "root" [leafOf "text" "def", bare [("type", .str "break")],
          wrapperOf "list" [wrapperOf "listItem" [leafOf "code" " g"]]] ∧
        let copies := article.visitsWithin piecePolicies ⟨3, 8⟩ tree
        let sources := (article.walk 0 {}).1.map Step.visit
        ∃ origin : Fin copies.length → Fin sources.length, StrictMono origin ∧
          (∀ i : Fin copies.length,
            copies[i].node.CutFrom piecePolicies sources[origin i].node) ∧
          ∀ i j : Fin copies.length,
            copies[i].IsAbove copies[j] ↔ sources[origin i].IsAbove sources[origin j] := by
  obtain ⟨excerpt, hexcerpt, hembeds⟩ :=
    @embeds_excerpt piecePolicies rfl 0 ⟨3, some 8, by decide⟩ article
  obtain rfl := Except.ok.inj (hexcerpt.symm.trans (excerpt_fresh _ _ _ _))
  exact ⟨rfl, _, _, hexcerpt, rfl, rfl, hembeds _ rfl⟩

end Node

end MarkdownExcerpt

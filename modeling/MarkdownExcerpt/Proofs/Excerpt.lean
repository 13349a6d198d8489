import MarkdownExcerpt.Excerpt
import MarkdownExcerpt.Proofs.Outcome

/-! The excerpt of a tree as a function of the tree, the range and the policies alone. With a
meter that remembers only true lengths, a fresh one above all, this is what comes out. -/
namespace MarkdownExcerpt

namespace Range

theorem stopWithin_eq_min (range : Range) (length : Nat) :
    range.stopWithin length = min (range.stop.getD length) length := by
  unfold stopWithin
  split
  · next h => simp [h]
  · next stop h => simp [h]

theorem start_lt_stopWithin {range : Range} {length : Nat} (h : range.start < length) :
    range.start < range.stopWithin length := by
  unfold stopWithin
  split
  · exact h
  · next stop hstop => exact Nat.lt_min.mpr ⟨range.start_lt_stop stop hstop, h⟩

/-- The window that the range selects in a tree. -/
def window (range : Range) (node : Node) : Span := ⟨range.start, range.stopWithin node.length⟩

/-- A range that meets characters of a tree selects some of them. -/
theorem start_lt_stopWithin_of_seen {range : Range} {node : Node} {span : Span}
    (hstop : span.stop ≤ node.length) (h : span.misses (range.window node) = false) :
    range.start < range.stopWithin node.length := by
  rw [Span.misses_eq_false_iff] at h
  apply start_lt_stopWithin
  simp only [window] at h
  omega

/-- Two values name a range by integers from zero on, the second of which may be left out. -/
inductive Names : Json → Json → Nat → Option Nat → Prop
  | toEnd (first : Nat) : Names (.int first) .null first none
  | upTo {first last : Nat} (h : first < last) : Names (.int first) (.int last) first (some last)

lemma position_eq_ok_iff {bound : Bound} {value : Json} {n : Nat} :
    position bound value = .ok n ↔ value = .int n := by
  constructor
  · intro h
    unfold position at h
    split at h
    · rw [Except.ok.inj h]
      rfl
    · cases h
    · cases h
  · rintro rfl
    rfl

variable {start stop : Json}

lemma names_of_ofJson {range : Range} (h : ofJson start stop = .ok range) :
    Names start stop range.start range.stop := by
  unfold ofJson at h
  split at h
  · cases h
  · next first hfirst =>
    rw [position_eq_ok_iff.mp hfirst]
    split at h
    · rw [← Except.ok.inj h]
      exact .toEnd first
    · split at h
      · cases h
      · next last hlast =>
        split at h
        · next hlt =>
          rw [position_eq_ok_iff.mp hlast, ← Except.ok.inj h]
          exact .upTo hlt
        · cases h

lemma exists_ofJson_of_names {first : Nat} {last : Option Nat} (h : Names start stop first last) :
    ∃ range, ofJson start stop = .ok range ∧ range.start = first ∧ range.stop = last := by
  cases h with
  | toEnd => exact ⟨_, rfl, rfl, rfl⟩
  | @upTo _ last hlt =>
    refine ⟨⟨first, some last, by simpa using hlt⟩, ?_, rfl, rfl⟩
    simp only [ofJson, position_eq_ok_iff.mpr rfl, hlt, dif_pos]

end Range

namespace Node

/-- What happened while a window was cut out of a tree. -/
def tallyOf (config : Config) (window : Span) (node : Node) : Tally :=
  (node.decisions config window 0).foldl Tally.record {}

/-- The excerpt of a tree that is measured afresh. -/
def excerptAlone (config : Config) (range : Range) (node : Node) : Excerpt :=
  let stop := range.stopWithin node.length
  if node.length = 0 then
    if range.start = 0 then { node := some node } else { boundaries := ⟨range.start, 0⟩ }
  else if stop ≤ range.start then
    { boundaries := ⟨range.start, stop⟩, info := { originalLength := node.length } }
  else
    let tree := (node.outcome config ⟨range.start, stop⟩ 0).tree?
    let tally := node.tallyOf config ⟨range.start, stop⟩
    { node := tree
      boundaries := ⟨range.start, stop⟩
      info := ⟨node.length, (tree.map length).getD 0, 0 < tally.partialNodes,
        tally.modifiedTypes⟩ }

/-- A range that selects characters of a tree cuts them out of it. -/
theorem node_excerptAlone {config : Config} {range : Range} {node : Node}
    (h : range.start < range.stopWithin node.length) :
    (node.excerptAlone config range).node =
      (node.outcome config ⟨range.start, range.stopWithin node.length⟩ 0).tree? := by
  have hle := range.stopWithin_le node.length
  rw [excerptAlone, if_neg (by omega), if_neg (by omega)]

/-- What is told about partly covered nodes is what happened while the window was cut out. -/
lemma info_excerptAlone_of_lt {range : Range} {node : Node}
    (h : range.start < range.stopWithin node.length) (config : Config) :
    let tally := node.tallyOf config (range.window node)
    (node.excerptAlone config range).info.hasPartialNodes = decide (0 < tally.partialNodes) ∧
      (node.excerptAlone config range).info.modifiedNodeTypes = tally.modifiedTypes := by
  have hle := range.stopWithin_le node.length
  rw [excerptAlone, if_neg (by omega), if_neg (by omega)]
  exact ⟨rfl, rfl⟩

/-- An empty tree is its own excerpt, and otherwise a range beyond the tree selects nothing. -/
theorem node_excerptAlone_of_le {config : Config} {range : Range} {node : Node}
    (h : range.stopWithin node.length ≤ range.start) :
    (node.excerptAlone config range).node =
      if node.length = 0 ∧ range.start = 0 then some node else none := by
  by_cases hzero : node.length = 0
  · by_cases hstart : range.start = 0 <;> simp [excerptAlone, hzero, hstart]
  · simp [excerptAlone, hzero, h]

/-- Nothing is cut out of a tree of which the range selects no characters. -/
lemma outcome_of_stopWithin_le {config : Config} {range : Range} {node : Node}
    (h : range.stopWithin node.length ≤ range.start) :
    node.outcome config (range.window node) 0 = .nothing := by
  apply outcome_of_misses
  cases hseen : (node.spanFrom 0).misses (range.window node) with
  | true => rfl
  | false =>
    have hlt := range.start_lt_stopWithin_of_seen (by simp) hseen
    omega

lemma measureOutput_fst (meter : Meter) (tree : Option Node) :
    (meter.measureOutput tree).1 = (tree.map length).getD 0 := by
  cases tree <;> rfl

/-- What is cut out between two offsets with a sound meter, and what is noted about it at the end. -/
lemma excerptBetween_of_sound {forest : Forest} {meter : Meter} (hs : meter.Sound forest)
    {number : Nat} {node : Node} (hn : forest.node? (.root number) = some node) (config : Config)
    (start stop : Nat) :
    let tree := (node.outcome config ⟨start, stop⟩ 0).tree?
    let tally := node.tallyOf config ⟨start, stop⟩
    let info : Info :=
      ⟨node.length, (tree.map length).getD 0, 0 < tally.partialNodes, tally.modifiedTypes⟩
    (node.excerptBetween config number node.length start stop meter).1 =
        { node := tree, boundaries := ⟨start, stop⟩, info } ∧
      (node.excerptBetween config number node.length start stop meter).2.log.getLast? =
        some (.sliced start stop node.length info.slicedLength tally.partialNodes
          tally.modifiedTypes) := by
  intro tree tally info
  obtain ⟨hout, hfollows⟩ :=
    node.cutsRight forest config ⟨start, stop⟩ (.root number) 0 { meter } hs hn
  have hspan : Span.ofLength 0 (node.length : Int) = node.spanFrom 0 := rfl
  simp only [excerptBetween, hspan, hout, measureOutput_fst, hfollows.tally]
  exact ⟨rfl, by simp [Meter.note, info, tree, tally, tallyOf]⟩

/-- With a sound meter an excerpt is taken of a tree of its true length. -/
lemma excerpt_eq_of_sound {forest : Forest} {meter : Meter} (hs : meter.Sound forest)
    {number : Nat} {node : Node} (hn : forest.node? (.root number) = some node)
    (config : Config) (range : Range) :
    node.excerpt config number range meter =
      (node.excerptOfLength config number node.length range
        (meter.measure (.root number) node).2).map .ok id := by
  have hmeasure : meter.measure (.root number) node =
      (.ofNat node.length, (meter.measure (.root number) node).2) :=
    Prod.ext (hs.measure hn).1 rfl
  rw [excerpt, hmeasure]
  rfl

theorem excerpt_of_sound {forest : Forest} {meter : Meter} (hs : meter.Sound forest)
    {number : Nat} {node : Node} (hn : forest.node? (.root number) = some node)
    (config : Config) (range : Range) :
    (node.excerpt config number range meter).1 = .ok (node.excerptAlone config range) := by
  obtain ⟨hexcerpt, -⟩ := excerptBetween_of_sound (hs.measure hn).2 hn config range.start
    (range.stopWithin node.length)
  rw [excerpt_eq_of_sound hs hn]
  simp only [Prod.map_fst, excerptOfLength, excerptAlone]
  split
  · split <;> rfl
  · split
    · rfl
    · exact congrArg Except.ok hexcerpt

/-- What is noted last of all when characters of a tree are selected. -/
lemma getLast?_log_excerpt {range : Range} {node : Node}
    (hrange : range.start < range.stopWithin node.length) (config : Config) (number : Nat) :
    let tally := node.tallyOf config (range.window node)
    (node.excerpt config number range {}).2.log.getLast? =
      some (.sliced range.start (range.stopWithin node.length) node.length
        (node.excerptAlone config range).info.slicedLength tally.partialNodes
        tally.modifiedTypes) := by
  have hn := Forest.node?_ofTree_root number node
  have hstop := range.stopWithin_le node.length
  obtain ⟨-, hlast⟩ := excerptBetween_of_sound ((Meter.sound_fresh _).measure hn).2 hn config
    range.start (range.stopWithin node.length)
  rw [excerpt_eq_of_sound (Meter.sound_fresh _) hn, Prod.map_snd, id, excerptOfLength,
    excerptAlone, if_neg (by omega), if_neg (by omega), if_neg (by omega), if_neg (by omega)]
  exact hlast

/-- With a fresh meter the excerpt is that of the tree alone. -/
theorem excerpt_fresh (config : Config) (number : Nat) (range : Range) (node : Node) :
    (node.excerpt config number range {}).1 = .ok (node.excerptAlone config range) :=
  excerpt_of_sound (Meter.sound_fresh _) (Forest.node?_ofTree_root number node) config range

end Node

/-- The excerpt of a tree, for bounds that are read as a range. -/
lemma Document.excerpt_tree {start stop : Json} {range : Range}
    (hrange : Range.ofJson start stop = .ok range) (config : Config) (number : Nat) (root : Node) :
    ((tree root).excerpt config number start stop {}).1 = .ok (root.excerptAlone config range) := by
  rw [excerpt, hrange]
  exact root.excerpt_fresh config number range

end MarkdownExcerpt

import MarkdownExcerpt.Proofs.Pieces

/-! Excerpts of excerpts. Under policies that keep every character and join no text, cutting twice is
cutting once: the second range is moved by the start of the first. -/
namespace MarkdownExcerpt
namespace Node

variable {config : Config} {outer inner : Span} {start : Int} {node : Node}

lemma text_visible (hleaf : node.bearsText = true) (window : Span) (start : Int) :
    (node.visible window start).text.toList = window.shown start node.text.toList := by
  unfold visible
  split
  · next hin => rw [← characters_of_bearsText hleaf, shown_of_isWithin hin]
  · simp

@[simp] lemma withValue_withValue (first second : String) (node : Node) :
    (node.withValue first).withValue second = node.withValue second := by
  simp only [withValue, mapAttributes_mapAttributes]
  congr 1
  funext attributes
  simp

/-- What the second window shows of what is visible in the first. -/
lemma visible_visible (hfit : inner.FitsIn outer) (hleaf : node.bearsText = true)
    (hseen : (node.spanFrom start).misses outer = false)
    (hspan : (node.visible outer start).spanFrom (outer.clip start) =
      outer.clipped (node.spanFrom start)) :
    (node.visible outer start).visible inner (outer.clip start) =
      node.visible (inner.shift outer.start) start := by
  have htext := text_visible hleaf outer start
  have hshown := Span.shown_shown hfit start node.text.toList
  rw [← htext] at hshown
  cases hin : (node.spanFrom start).isWithin outer with
  | true =>
    have hwithin := Span.isWithin_clipped hfit hseen hin
    rw [← hspan] at hwithin
    rw [visible_of_isWithin hin] at hwithin hshown ⊢
    rw [visible, visible, hwithin, hshown]
  | false =>
    have hvalue (value : String) :
        (node.visible outer start).withValue value = node.withValue value := by
      rw [visible_of_cut hin, withValue_withValue]
    rw [visible_of_cut (Span.isWithin_shift hfit hin), ← hshown]
    cases hwithin :
        ((node.visible outer start).spanFrom (outer.clip start)).isWithin inner with
    | true =>
      have hall := shown_of_isWithin hwithin
      rw [characters_of_bearsText (by simpa using hleaf)] at hall
      rw [visible_of_isWithin hwithin, hall, htext, visible_of_cut hin]
    | false => rw [visible_of_cut hwithin, hvalue]

/-- Cutting a window out of what comes out of the node gives what cutting once gives. -/
structure Composes (config : Config) (outer inner : Span) (start : Int) (node : Node) : Prop where
  one : ∀ next, node.outcome config outer start = .one next →
    next.outcome config inner (outer.clip start) =
      node.outcome config (inner.shift outer.start) start
  pieces : Node.pieces config inner (outer.clip start) (node.outcome config outer start).nodes =
    (node.outcome config (inner.shift outer.start) start).nodes

/-- Where a single node comes out, its outcome says all about the pieces. -/
lemma Composes.of_one {next : Node} (h : node.outcome config outer start = .one next)
    (hnext : next.outcome config inner (outer.clip start) =
      node.outcome config (inner.shift outer.start) start) :
    node.Composes config outer inner start where
  one other hother := by
    rw [h] at hother
    rwa [← Outcome.one.inj hother]
  pieces := by rw [h, Outcome.nodes, pieces_cons, pieces_nil, List.append_nil, hnext]

lemma pieces_pieces (hc : config.KeepsPieces) (hfit : inner.FitsIn outer) {nodes : List Node}
    (hbreaks : ∀ node ∈ nodes, node.BreaksBare)
    (h : ∀ node ∈ nodes, ∀ start, node.Composes config outer inner start) (start : Int) :
    pieces config inner (outer.clip start) (pieces config outer start nodes) =
      pieces config (inner.shift outer.start) start nodes := by
  induction nodes generalizing start with
  | nil => rfl
  | cons node rest ih =>
    have hnext := clip_add_length hc hfit.outer_start_lt_stop (hbreaks node (by simp)) start
    rw [pieces_cons, pieces_append, (h node (by simp) start).pieces, pieces_cons, hnext,
      ih (fun n hm => hbreaks n (by simp [hm])) fun n hm => h n (by simp [hm])]

lemma outcome_outcome_leaf (hc : config.KeepsPieces) (hfit : inner.FitsIn outer)
    (hbreaks : node.BreaksBare) (hseen : (node.spanFrom start).misses outer = false)
    (hleaf : node.bearsText = true) :
    (node.visible outer start).outcome config inner (outer.clip start) =
      node.outcome config (inner.shift outer.start) start := by
  have hspan := spanFrom_of_outcome hc hfit.outer_start_lt_stop hbreaks
    (outcome_of_leaf hc hfit.outer_start_lt_stop hseen hleaf)
  have hmeets := Span.misses_clipped hfit hseen
  rw [← hspan] at hmeets
  have hlt : (inner.shift outer.start).start < (inner.shift outer.start).stop := by
    have hinner := hfit.start_lt_stop
    simp only [Span.shift]
    omega
  cases hmiss : (node.spanFrom start).misses (inner.shift outer.start) with
  | true => rw [outcome_of_misses (hmeets.trans hmiss), outcome_of_misses hmiss]
  | false =>
    rw [outcome_of_leaf hc hfit.start_lt_stop (hmeets.trans hmiss) (by simpa using hleaf),
      outcome_of_leaf hc hlt hmiss hleaf, visible_visible hfit hleaf hseen hspan]

lemma outcome_outcome_atom (hc : config.KeepsPieces) (hfit : inner.FitsIn outer)
    (hbreaks : node.BreaksBare) (hseen : (node.spanFrom start).misses outer = false)
    (hleaf : node.bearsText = false) (hatom : node.isWrapper = false) :
    node.outcome config inner (outer.clip start) =
      node.outcome config (inner.shift outer.start) start := by
  have hspan := spanFrom_of_outcome hc hfit.outer_start_lt_stop hbreaks
    (outcome_of_atom hc hseen hleaf hatom)
  have hmeets := Span.misses_clipped hfit hseen
  rw [← hspan] at hmeets
  cases hmiss : (node.spanFrom start).misses (inner.shift outer.start) with
  | true => rw [outcome_of_misses (hmeets.trans hmiss), outcome_of_misses hmiss]
  | false =>
    rw [outcome_of_atom hc (hmeets.trans hmiss) hleaf hatom, outcome_of_atom hc hmiss hleaf hatom]

/-- A wrapper that stays is treated in the second cut as it would be in one. -/
lemma outcome_outcome_wrapper (hc : config.KeepsPieces) (hfit : inner.FitsIn outer)
    (hseen : (node.spanFrom start).misses outer = false) (hwrap : node.isWrapper = true)
    (hstays : ¬((node.spanFrom start).isWithin outer = false ∧ config.splices node.kind = true))
    {content : List Node}
    (hspan : (node.withChildren content).spanFrom (outer.clip start) =
      outer.clipped (node.spanFrom start))
    (hcontent : pieces config inner (outer.clip start) content =
      pieces config (inner.shift outer.start) start node.childNodes) :
    (node.withChildren content).outcome config inner (outer.clip start) =
      node.outcome config (inner.shift outer.start) start := by
  have hmeets := Span.misses_clipped hfit hseen
  rw [← hspan] at hmeets
  cases hmiss : (node.spanFrom start).misses (inner.shift outer.start) with
  | true => rw [outcome_of_misses (hmeets.trans hmiss), outcome_of_misses hmiss]
  | false =>
    have hcond : ((node.withChildren content).spanFrom (outer.clip start)).isWithin inner = false ∧
          config.splices node.kind = true ↔
        (node.spanFrom start).isWithin (inner.shift outer.start) = false ∧
          config.splices node.kind = true := by
      refine and_congr_left fun hsplice => ?_
      -- A wrapper that could give way has stayed because the first window covers all of it.
      have hin : (node.spanFrom start).isWithin outer = true := by
        cases hin : (node.spanFrom start).isWithin outer with
        | true => rfl
        | false => exact absurd ⟨hin, hsplice⟩ hstays
      rw [hspan, Span.isWithin_clipped hfit hseen hin]
    rw [outcome_of_wrapper hc (hmeets.trans hmiss) (isWrapper_withChildren hwrap content),
      outcome_of_wrapper hc hmiss hwrap]
    simp only [kind_withChildren, childNodes_withChildren, hcontent, hcond,
      withChildren_withChildren]

/-- A wrapper composes if the pieces of its content do. -/
lemma composes_wrapper (hc : config.KeepsPieces) (hfit : inner.FitsIn outer)
    (hbreaks : node.BreaksBare) (hseen : (node.spanFrom start).misses outer = false)
    (hwrap : node.isWrapper = true)
    (hcontent : pieces config inner (outer.clip start)
        (pieces config outer start node.childNodes) =
      pieces config (inner.shift outer.start) start node.childNodes) :
    node.Composes config outer inner start := by
  have hleaf := (isWrapper_iff.mp hwrap).1
  have hout := outcome_of_wrapper hc hseen hwrap
  by_cases hsplice : (node.spanFrom start).isWithin outer = false ∧ config.splices node.kind = true
  · -- What gives way in the first cut is cut in one as well, so it gives way there too.
    rw [if_pos hsplice] at hout
    refine ⟨fun next hnext => ?_, ?_⟩
    · rw [hout, Outcome.content] at hnext
      split at hnext <;> simp at hnext
    · rw [hout, Outcome.nodes_content, hcontent]
      cases hmiss : (node.spanFrom start).misses (inner.shift outer.start) with
      | true => rw [outcome_of_misses hmiss, pieces_of_misses hleaf hmiss, Outcome.nodes]
      | false =>
        rw [outcome_of_wrapper hc hmiss hwrap,
          if_pos ⟨Span.isWithin_shift hfit hsplice.1, hsplice.2⟩, Outcome.nodes_content]
  · rw [if_neg hsplice] at hout
    by_cases hempty : ((pieces config outer start node.childNodes).isEmpty &&
        !config.keepsEmpty node.kind) = true
    · rw [if_pos hempty] at hout
      rw [Bool.and_eq_true, List.isEmpty_iff] at hempty
      rw [hempty.1, pieces_nil] at hcontent
      refine ⟨fun next hnext => by simp [hout] at hnext, ?_⟩
      rw [hout, Outcome.nodes, pieces_nil]
      cases hmiss : (node.spanFrom start).misses (inner.shift outer.start) with
      | true => rw [outcome_of_misses hmiss, Outcome.nodes]
      | false =>
        rw [outcome_of_wrapper hc hmiss hwrap, ← hcontent]
        simp [hempty.2, Outcome.content, Outcome.nodes]
    · rw [if_neg hempty] at hout
      have hspan := spanFrom_of_outcome hc hfit.outer_start_lt_stop hbreaks hout
      exact .of_one hout
        (outcome_outcome_wrapper hc hfit hseen hwrap hsplice hspan hcontent)

/-- Cutting twice is cutting once, wherever the node starts. -/
theorem composes (hc : config.KeepsPieces) (hfit : inner.FitsIn outer) (node : Node)
    (hbreaks : node.BreaksBare) (start : Int) : node.Composes config outer inner start := by
  induction node using Node.inductionOn generalizing start with
  | step node ih =>
    cases hseen : (node.spanFrom start).misses outer with
    | true =>
      have hout : node.outcome config outer start = .nothing := outcome_of_misses hseen
      refine ⟨fun next hnext => by simp [hout] at hnext, ?_⟩
      rw [hout, outcome_of_misses (Span.misses_shift hfit hseen)]
      rfl
    | false =>
      cases hleaf : node.bearsText with
      | true =>
        exact .of_one (outcome_of_leaf hc hfit.outer_start_lt_stop hseen hleaf)
          (outcome_outcome_leaf hc hfit hbreaks hseen hleaf)
      | false =>
        have hchild : ∀ child ∈ node.childNodes, child.BreaksBare :=
          fun child hm => hbreaks.child hleaf hm
        cases hwrap : node.isWrapper with
        | false =>
          exact .of_one (outcome_of_atom hc hseen hleaf hwrap)
            (outcome_outcome_atom hc hfit hbreaks hseen hleaf hwrap)
        | true =>
          exact composes_wrapper hc hfit hbreaks hseen hwrap
            (pieces_pieces hc hfit hchild (fun child hm => ih child hm (hchild child hm)) start)

/-- The root that stands for a node that gave way is cut like that node. -/
lemma tree?_rootOf (hc : config.KeepsPieces) (hfit : inner.FitsIn outer) (hbreaks : node.BreaksBare)
    (hstart : outer.clip start = 0) {nodes : List Node} {isolated : Bool}
    (h : node.outcome config outer start = .many nodes isolated)
    (hroot : ((rootOf nodes).spanFrom 0).misses inner = false)
    (hseen : (node.spanFrom start).misses (inner.shift outer.start) = false)
    (hne : (node.outcome config (inner.shift outer.start) start).nodes ≠ []) :
    ((rootOf nodes).outcome config inner 0).tree? =
      (node.outcome config (inner.shift outer.start) start).tree? := by
  have hpieces := (composes hc hfit node hbreaks start).pieces
  obtain ⟨hwrap, hcut, hsplice⟩ := givesWay_of_many hc hfit.outer_start_lt_stop h
  rw [outcome_of_wrapper hc hseen hwrap, if_pos ⟨Span.isWithin_shift hfit hcut, hsplice⟩] at *
  rw [Outcome.nodes_content] at hpieces hne
  rw [h, hstart, Outcome.nodes] at hpieces
  have hstays : ¬(((rootOf nodes).spanFrom 0).isWithin inner = false ∧
      config.splices (rootOf nodes).kind = true) := by simp [Config.splices]
  rw [outcome_of_wrapper hc hroot rfl, if_neg hstays, childNodes_rootOf, hpieces]
  simp [hne, Outcome.content, Outcome.tree?]

lemma length_of_tree? {outcome : Outcome} {tree : Node} (h : outcome.tree? = some tree) :
    tree.length = lengthOf outcome.nodes := by
  cases outcome with
  | nothing => simp [Outcome.tree?] at h
  | one node =>
    obtain rfl := Option.some.inj h
    simp [Outcome.nodes]
  | many nodes isolated =>
    obtain rfl := Option.some.inj h
    rw [length_of_not_bearsText rfl, childNodes_rootOf, Outcome.nodes]

/-- The tree of an excerpt is cut like the tree that it is an excerpt of. -/
lemma tree?_tree? (hc : config.KeepsPieces) (hfit : inner.FitsIn outer) (hbreaks : node.BreaksBare)
    (hstart : outer.clip start = 0) {tree : Node}
    (htree : (node.outcome config outer start).tree? = some tree)
    (hlength : inner.stop ≤ tree.length)
    (hseen : (node.spanFrom start).misses (inner.shift outer.start) = false)
    (hne : (node.outcome config (inner.shift outer.start) start).nodes ≠ []) :
    (tree.outcome config inner 0).tree? =
      (node.outcome config (inner.shift outer.start) start).tree? := by
  cases hout : node.outcome config outer start with
  | nothing => simp [hout, Outcome.tree?] at htree
  | one next =>
    rw [hout] at htree
    obtain rfl := Option.some.inj htree
    rw [← hstart, (composes hc hfit node hbreaks start).one next hout]
  | many nodes isolated =>
    rw [hout] at htree
    obtain rfl := Option.some.inj htree
    refine tree?_rootOf hc hfit hbreaks hstart hout ?_ hseen hne
    have hnonneg := hfit.nonneg
    have hlt := hfit.start_lt_stop
    rw [Span.misses_eq_false_iff, stop_spanFrom, start_spanFrom]
    omega

end Node

namespace Range

lemma start_lt_of_mem_some {start stop : Nat} (h : start < stop) : ∀ n ∈ some stop, start < n := by
  intro n hn
  rwa [← Option.some.inj hn]

/-- The range between two offsets. -/
def between (start stop : Nat) (h : start < stop) : Range :=
  ⟨start, some stop, start_lt_of_mem_some h⟩

end Range

namespace Node

variable {config : Config} {node : Node}

lemma node_excerptAlone_between {start stop : Nat} (h : start < stop) (hle : stop ≤ node.length) :
    (node.excerptAlone config (.between start stop h)).node =
      (node.outcome config ⟨start, stop⟩ 0).tree? := by
  have hstop : (Range.between start stop h).stopWithin node.length = stop :=
    Nat.min_eq_left hle
  rw [node_excerptAlone (by rwa [hstop]), hstop]
  rfl

/-- Something comes out of a tree wherever the window starts before the end of the tree. -/
lemma nodes_ne_nil_of_start_lt (hc : config.KeepsPieces) (hbreaks : node.BreaksBare)
    {start stop : Nat} (h : start < stop) (hle : start < node.length) :
    (node.outcome config ⟨start, stop⟩ 0).nodes ≠ [] ∧
      (node.spanFrom 0).misses ⟨start, stop⟩ = false := by
  have hseen : (node.spanFrom 0).misses ⟨start, stop⟩ = false := by
    rw [Span.misses_eq_false_iff, stop_spanFrom, start_spanFrom]
    simp only
    omega
  exact ⟨nodes_outcome_ne_nil hc.toKeepsContent hc.whitespace hbreaks.breaksEmpty
    (Int.ofNat_lt.mpr h) (by omega) hseen, hseen⟩

/-- The tree of an excerpt is as long as the range. -/
lemma length_of_tree?_outcome (hc : config.KeepsPieces) (hbreaks : node.BreaksBare)
    {start stop : Nat} (h : start < stop) (hle : stop ≤ node.length) {tree : Node}
    (htree : (node.outcome config ⟨start, stop⟩ 0).tree? = some tree) :
    tree.length = stop - start := by
  have hwindow : Span.start ⟨start, stop⟩ < Span.stop ⟨start, stop⟩ := Int.ofNat_lt.mpr h
  have hclip := clip_add_length hc hwindow hbreaks 0
  rw [← length_of_tree? htree] at hclip
  simp only [Span.clip] at hclip
  omega

/-- The excerpt of an excerpt is the excerpt of the document that starts as much further in. -/
theorem excerpt_excerpt (hc : config.KeepsPieces) (hbreaks : node.BreaksBare) (number later : Nat)
    {a b c d : Nat} (hab : a < b) (hb : b ≤ node.length) (hcd : c < d) (hd : d ≤ b - a) :
    ∃ first tree second direct,
      (node.excerpt config number (.between a b hab) {}).1 = .ok first ∧ first.node = some tree ∧
      (tree.excerpt config later (.between c d hcd) {}).1 = .ok second ∧
      (node.excerpt config number (.between (a + c) (a + d) (by omega)) {}).1 = .ok direct ∧
      second.node = direct.node ∧ direct.node.isSome = true := by
  have hfit : Span.FitsIn ⟨c, d⟩ ⟨a, b⟩ := ⟨by simp, by simpa using hcd, by simp only; omega⟩
  have hshift : Span.shift ⟨c, d⟩ a = ⟨(a + c : Nat), (a + d : Nat)⟩ := by
    simp only [Span.shift, Int.natCast_add, Int.add_comm]
  have hstart : Span.clip ⟨a, b⟩ 0 = 0 := by
    simp only [Span.clip]
    omega
  have hfirst : (node.excerptAlone config (.between a b hab)).node =
      (node.outcome config ⟨a, b⟩ 0).tree? := node_excerptAlone_between hab hb
  obtain ⟨tree, htree⟩ := Option.isSome_iff_exists.mp
    (Outcome.isSome_tree? (nodes_ne_nil_of_start_lt hc hbreaks hab (by omega)).1)
  have hlength := length_of_tree?_outcome hc hbreaks hab hb htree
  obtain ⟨hne, hseen⟩ := nodes_ne_nil_of_start_lt hc hbreaks
    (Nat.add_lt_add_left hcd a) (by omega)
  have hcompose := tree?_tree? hc hfit hbreaks hstart htree (by simp only; omega)
    (by rwa [hshift]) (by rwa [hshift])
  rw [hshift] at hcompose
  refine ⟨_, tree, _, _, excerpt_fresh config number _ node, hfirst.trans htree,
    excerpt_fresh config later _ tree, excerpt_fresh config number _ node, ?_, ?_⟩
  · rw [node_excerptAlone_between hcd (by omega), node_excerptAlone_between _ (by omega), hcompose]
  · rw [node_excerptAlone_between _ (by omega)]
    exact Outcome.isSome_tree? hne

theorem excerpt_excerpt_article :
    piecePolicies.KeepsPieces ∧ article.BreaksBare ∧ 1 < 8 ∧ 8 ≤ article.length ∧
      ∃ first tree second direct,
        (article.excerpt piecePolicies 0 (.between 1 8 (by decide)) {}).1 = .ok first ∧
        first.node = some tree ∧
        (tree.excerpt piecePolicies 1 (.between 1 6 (by decide)) {}).1 = .ok second ∧
        (article.excerpt piecePolicies 0 (.between 2 7 (by decide)) {}).1 = .ok direct ∧
        second.node = direct.node ∧ direct.node.isSome = true :=
  ⟨keepsPieces_piecePolicies, breaksBare_article, by decide, by decide,
    excerpt_excerpt keepsPieces_piecePolicies breaksBare_article 0 1 (by decide : 1 < 8)
      (by decide) (by decide : 1 < 6) (by decide)⟩

end Node
end MarkdownExcerpt

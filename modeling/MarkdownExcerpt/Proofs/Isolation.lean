import MarkdownExcerpt.Proofs.Arrival

/-! The text of unwrapped blocks and the text around them. A block in a container that stays is
joined with nothing outside it. Where the container gives way to its content as well, text is joined
once more further up, and the edges of the block are forgotten. -/
namespace MarkdownExcerpt

/-- The window covers the node in part, and the policy for it has it give way to its content. -/
structure Visit.GivesWay (config : Config) (window : Span) (visit : Visit) : Prop where
  seen : visit.span.misses window = false
  cut : visit.span.isWithin window = false
  policy : config.splices visit.node.kind = true

variable {config : Config} {window : Span}

namespace Remnant

/-- Characters from below a path and characters from elsewhere are in one group. -/
def Mixes (path : List Nat) (group : List (Origin × Node)) : Prop :=
  (∃ entry ∈ group, path <+: entry.1.path ∧ entry.2.text ≠ "") ∧
    ∃ entry ∈ group, ¬path <+: entry.1.path ∧ entry.2.text ≠ ""

/-- No leaf of the excerpt has characters both from below a path and from elsewhere. -/
def StaysApart (path : List Nat) (remnant : Remnant) : Prop :=
  ∀ content ∈ remnant.contents, ∀ group ∈ groups (entries content), ¬Mixes path group

/-- A stretch of siblings, each of which joins the next, leads from characters below a path to
characters elsewhere. -/
def Bridged (path : List Nat) (remnant : Remnant) : Prop :=
  ∃ content ∈ remnant.contents, ∃ stretch : List (Origin × Node),
    stretch <:+: entries content ∧ (stretch.IsChain fun x y => joins x y = true) ∧
      Mixes path stretch

lemma Mixes.mono {path : List Nat} {stretch group : List (Origin × Node)}
    (h : Mixes path stretch) (hsub : stretch ⊆ group) : Mixes path group :=
  ⟨h.1.imp fun _ he => ⟨hsub he.1, he.2⟩, h.2.imp fun _ he => ⟨hsub he.1, he.2⟩⟩

/-- A stretch of joining siblings is in one group. -/
lemma exists_group_of_isInfix {stretch : List (Origin × Node)}
    {groups : List (List (Origin × Node))} (hne : stretch ≠ []) (hnil : [] ∉ groups)
    (h : groups.IsChain fun a b => ∃ ha hb, joins (a.getLast ha) (b.head hb) = false)
    (hstretch : stretch <:+: groups.flatten)
    (hchain : stretch.IsChain fun x y => joins x y = true) :
    ∃ group ∈ groups, stretch <:+: group := by
  induction groups with
  | nil => simp_all
  | cons group rest ih =>
    rw [List.flatten_cons, List.infix_append_iff_ne_nil] at hstretch
    rcases hstretch with hin | hin | ⟨left, right, hl, hr, rfl, hsuffix, hrest⟩
    · exact ⟨group, by simp, hin⟩
    · obtain ⟨other, hother, hin⟩ := ih (fun hm => hnil (by simp [hm])) h.tail hin
      exact ⟨other, by simp [hother], hin⟩
    · -- A stretch over the edge of the first group would join what the edge keeps apart.
      cases rest with
      | nil => simp_all
      | cons next others =>
        obtain ⟨⟨ha, hb, hjoins⟩, -⟩ := List.isChain_cons_cons.mp h
        obtain ⟨before, rfl⟩ := hsuffix
        obtain ⟨after, hafter⟩ := hrest
        have hlast : (before ++ left).getLast ha = left.getLast hl := List.getLast_append_right hl
        have hfirst : next.head hb = right.head hr := by
          have hheads := congrArg List.head? hafter
          rw [List.flatten_cons, List.head?_append_of_ne_nil _ hr,
            List.head?_append_of_ne_nil _ hb, List.head?_eq_some_head hr,
            List.head?_eq_some_head hb] at hheads
          exact (Option.some.inj hheads).symm
        have hmeet := (List.isChain_append.mp hchain).2.2 (left.getLast hl)
          (List.getLast?_eq_some_getLast hl) (right.head hr) (List.head?_eq_some_head hr)
        rw [← hlast, ← hfirst, hjoins] at hmeet
        exact absurd hmeet (by simp)

/-- Text is kept apart exactly where no stretch of siblings leads over. -/
lemma staysApart_iff_not_bridged {path : List Nat} {remnant : Remnant} :
    remnant.StaysApart path ↔ ¬remnant.Bridged path := by
  constructor
  · rintro hapart ⟨content, hcontent, stretch, hstretch, hchain, hmixes⟩
    have hne : stretch ≠ [] := by
      obtain ⟨⟨entry, hentry, -⟩, -⟩ := hmixes
      exact List.ne_nil_of_mem hentry
    rw [← List.flatten_splitBy joins (entries content)] at hstretch
    obtain ⟨group, hgroup, hin⟩ := exists_group_of_isInfix hne
      (List.nil_notMem_splitBy _ _) (List.isChain_getLast_head_splitBy _ _) hstretch hchain
    exact hapart content hcontent group hgroup (hmixes.mono hin.subset)
  · intro h content hcontent group hgroup hmixes
    refine h ⟨content, hcontent, group, ?_, List.isChain_of_mem_splitBy hgroup, hmixes⟩
    have hstretch := List.infix_of_mem_flatten hgroup
    rwa [groups, List.flatten_splitBy] at hstretch

/-- Joining siblings belong to the same enclave. -/
lemma enclave_eq_of_isChain {group : List (Origin × Node)}
    (h : group.IsChain fun x y => joins x y = true) {first second : Origin × Node}
    (hf : first ∈ group) (hs : second ∈ group) : first.1.enclave = second.1.enclave := by
  cases group with
  | nil => simp at hf
  | cons head rest =>
    have hhead : ∀ entry ∈ head :: rest, entry.1.enclave = head.1.enclave := by
      intro entry hm
      rcases List.mem_cons.mp hm with rfl | hm
      · rfl
      · exact (of_isChain h hm).2.2
    rw [hhead first hf, hhead second hs]

/-- Siblings that mix text join exactly if they are text leaves of one enclave. -/
lemma isChain_joins_iff {path : List Nat} {stretch : List (Origin × Node)}
    (h : Mixes path stretch) :
    (stretch.IsChain fun x y => joins x y = true) ↔
      (∀ entry ∈ stretch, entry.2.isText = true) ∧
        ∀ first ∈ stretch, ∀ second ∈ stretch, first.1.enclave = second.1.enclave := by
  constructor
  · intro hchain
    refine ⟨?_, fun first hf second hs => enclave_eq_of_isChain hchain hf hs⟩
    match stretch with
    | [] => simp
    | [entry] =>
      obtain ⟨⟨first, hf, hin, -⟩, second, hs, hout, -⟩ := h
      rw [List.mem_singleton.mp hf] at hin
      rw [List.mem_singleton.mp hs] at hout
      exact absurd hin hout
    | first :: second :: rest =>
      intro entry hm
      rcases List.mem_cons.mp hm with rfl | hm
      · exact (of_isChain hchain List.mem_cons_self).1
      · exact (of_isChain hchain hm).2.1
  · rintro ⟨htext, hsame⟩
    refine (List.pairwise_of_forall_mem_list fun first hf second hs => ?_).isChain
    simp [joins, htext first hf, htext second hs, hsame first hf second hs]

end Remnant

/-- Text leaves that come out next to each other in a node lead from characters below a path to
characters elsewhere. -/
structure Visit.Links (config : Config) (window : Span) (path : List Nat) (receiver : Visit)
    (stretch : List Visit) : Prop where
  adjacent : stretch <:+: receiver.arrivals config window
  text : ∀ visit ∈ stretch, visit.node.isText = true
  /-- No edge of an unwrapped child of the node is in between. -/
  together : ∀ seat ∈ Child.seats 0 receiver.span.start receiver.node.children,
    (seat.node.decision config window seat.start).treatment = .splice true →
      (∀ visit ∈ stretch, receiver.path ++ [seat.index] <+: visit.path) ∨
        ∀ visit ∈ stretch, ¬receiver.path ++ [seat.index] <+: visit.path
  inside : ∃ visit ∈ stretch, path <+: visit.path ∧ visit.kept config window .text ≠ []
  outside : ∃ visit ∈ stretch, ¬path <+: visit.path ∧ visit.kept config window .text ≠ []

/-- In a node whose new children are siblings in the excerpt, text leaves of the tree lead from
characters below a path to characters elsewhere. -/
def Node.Bridged (config : Config) (window : Span) (path : List Nat) (node : Node) : Prop :=
  ∃ receiver ∈ node.visits [] 0, receiver.Receives config window (node.visits [] 0) ∧
    ∃ stretch, receiver.Links config window path stretch

namespace Node

/-- What is left of a node's content is in the enclave of an unwrapped child if it comes from that
child. -/
lemma enclave_eq_some_iff {receiver : Visit} {entry : Origin × Node}
    (h : entry ∈ Remnant.entries (receiver.content config window)) {i : Nat} :
    entry.1.enclave = some i ↔ receiver.path ++ [i] <+: entry.1.path ∧
      ∃ seat ∈ Child.seats 0 receiver.span.start receiver.node.children,
        (seat.node.decision config window seat.start).treatment = .splice true ∧
          seat.index = i := by
  rw [Remnant.entries_eq] at h
  obtain ⟨remnant, hr, rfl⟩ := List.mem_map.mp h
  obtain ⟨seat, hseat, inner, hinner, rfl⟩ := mem_childRemnants.mp hr
  have hpath := isPrefix_of_mem_remnants hinner
  rw [Remnant.origin_within]
  constructor
  · intro hi
    obtain ⟨hsplice, rfl⟩ := Seat.enclave_eq_some_iff.mp hi
    exact ⟨hpath, seat, hseat, hsplice, rfl⟩
  · rintro ⟨hunder, other, hother, hsplice, rfl⟩
    obtain rfl := Child.seats_inj hother hseat (Seat.index_eq_of_isPrefix hunder hpath)
    exact Seat.enclave_eq_some_iff.mpr ⟨hsplice, rfl⟩

lemma enclaves_eq_iff {receiver : Visit} {stretch : List (Origin × Node)}
    (hsub : stretch ⊆ Remnant.entries (receiver.content config window)) :
    (∀ first ∈ stretch, ∀ second ∈ stretch, first.1.enclave = second.1.enclave) ↔
      ∀ seat ∈ Child.seats 0 receiver.span.start receiver.node.children,
        (seat.node.decision config window seat.start).treatment = .splice true →
          (∀ entry ∈ stretch, receiver.path ++ [seat.index] <+: entry.1.path) ∨
            ∀ entry ∈ stretch, ¬receiver.path ++ [seat.index] <+: entry.1.path := by
  constructor
  · intro hsame seat hseat hsplice
    by_cases hall : ∀ entry ∈ stretch, receiver.path ++ [seat.index] <+: entry.1.path
    · exact .inl hall
    · refine .inr fun second hs hpath => hall fun first hf => ?_
      have hsecond := (enclave_eq_some_iff (hsub hs)).mpr ⟨hpath, seat, hseat, hsplice, rfl⟩
      exact ((enclave_eq_some_iff (hsub hf)).mp ((hsame first hf second hs).trans hsecond)).1
  · intro htogether
    have hcarry : ∀ first ∈ stretch, ∀ second ∈ stretch, ∀ i,
        first.1.enclave = some i → second.1.enclave = some i := by
      intro first hf second hs i hi
      obtain ⟨hpath, seat, hseat, hsplice, rfl⟩ := (enclave_eq_some_iff (hsub hf)).mp hi
      rcases htogether seat hseat hsplice with hall | hnone
      · exact (enclave_eq_some_iff (hsub hs)).mpr ⟨hall second hs, seat, hseat, hsplice, rfl⟩
      · exact absurd hpath (hnone first hf)
    intro first hf second hs
    exact Option.ext fun i => ⟨hcarry first hf second hs i, hcarry second hs first hf i⟩

/-- Leaves link characters exactly if what is left of them joins and mixes them. -/
lemma links_iff {receiver : Visit} {path : List Nat} {stretch : List (Origin × Node)}
    {arrived : List Visit}
    (hmarks : stretch.map Remnant.entryMark = arrived.map (Visit.mark config window))
    (hstretch : stretch <:+: Remnant.entries (receiver.content config window))
    (harrived : arrived <:+: receiver.arrivals config window) :
    receiver.Links config window path arrived ↔
      (stretch.IsChain fun x y => Remnant.joins x y = true) ∧ Remnant.Mixes path stretch := by
  have htext : (∀ entry ∈ stretch, entry.2.isText = true) ↔
      ∀ visit ∈ arrived, visit.node.isText = true :=
    Remnant.forall_iff_of_marks hmarks fun entry visit _ _ hremains => by
      rw [Visit.isText_of_remains hremains]
  have hpath (place : List Nat → Prop) : (∀ entry ∈ stretch, place entry.1.path) ↔
      ∀ visit ∈ arrived, place visit.path :=
    Remnant.forall_iff_of_marks hmarks fun entry visit _ hsame _ => by rw [hsame]
  have htogether := (enclaves_eq_iff hstretch.subset).trans <|
    forall₂_congr fun seat _ => imp_congr_right fun _ =>
      or_congr (hpath (receiver.path ++ [seat.index] <+: ·))
        (hpath (¬receiver.path ++ [seat.index] <+: ·))
  -- Characters of a text leaf are those of what comes out of it.
  have hchars (place : List Nat → Prop) (hall : ∀ visit ∈ arrived, visit.node.isText = true) :
      (∃ entry ∈ stretch, place entry.1.path ∧ entry.2.text ≠ "") ↔
        ∃ visit ∈ arrived, place visit.path ∧ visit.kept config window .text ≠ [] :=
    Remnant.exists_iff_of_marks hmarks fun entry visit hv hsame hremains => by
      rw [hsame, ← Visit.toList_text_of_remains (Visit.span_of_mem_arrivals (harrived.subset hv))
        hremains (hall visit hv), Ne, Ne, String.toList_eq_nil_iff]
  constructor
  · rintro ⟨-, hall, hapart, hinside, houtside⟩
    have hmixes : Remnant.Mixes path stretch :=
      ⟨(hchars (path <+: ·) hall).mpr hinside, (hchars (¬path <+: ·) hall).mpr houtside⟩
    exact ⟨(Remnant.isChain_joins_iff hmixes).mpr ⟨htext.mpr hall, htogether.mpr hapart⟩, hmixes⟩
  · rintro ⟨hchain, hmixes⟩
    obtain ⟨hall, hsame⟩ := (Remnant.isChain_joins_iff hmixes).mp hchain
    have hall := htext.mp hall
    exact ⟨harrived, hall, htogether.mp hsame, (hchars (path <+: ·) hall).mp hmixes.1,
      (hchars (¬path <+: ·) hall).mp hmixes.2⟩

/-- What is left of a tree is bridged exactly if the tree is. -/
theorem bridged_iff (hjoin : config.text.mergeAdjacentText = true) {path : List Nat} {node : Node}
    {remnant : Remnant} (h : remnant ∈ node.remnant? config window) :
    remnant.Bridged path ↔ node.Bridged config window path := by
  have hmarks (receiver : Visit) :
      (Remnant.entries (receiver.content config window)).map Remnant.entryMark =
        (receiver.arrivals config window).map (Visit.mark config window) := by
    rw [Remnant.map_entryMark_entries]
    exact marks_content fun child _ => child.arrivesRight hjoin
  constructor
  · rintro ⟨content, hcontent, stretch, hstretch, hchain, hmixes⟩
    obtain ⟨receiver, hv, hreceives, rfl⟩ := exists_receives_of_mem_contents h hcontent
    have hinfix := hstretch.map Remnant.entryMark
    rw [hmarks, List.infix_map_iff] at hinfix
    obtain ⟨arrived, harrived, heq⟩ := hinfix
    exact ⟨receiver, hv, hreceives, arrived, (links_iff heq hstretch harrived).mpr
      ⟨hchain, hmixes⟩⟩
  · rintro ⟨receiver, hv, hreceives, arrived, hlinks⟩
    have hinfix := hlinks.adjacent.map (Visit.mark config window)
    rw [← hmarks, List.infix_map_iff] at hinfix
    obtain ⟨stretch, hstretch, heq⟩ := hinfix
    obtain ⟨hchain, hmixes⟩ := (links_iff heq.symm hstretch hlinks.adjacent).mp hlinks
    have hne : receiver.content config window ≠ [] := by
      obtain ⟨⟨entry, hentry, -⟩, -⟩ := hmixes
      rw [Ne, ← Remnant.entries_eq_nil_iff]
      exact List.ne_nil_of_mem (hstretch.subset hentry)
    exact ⟨_, mem_contents_of_receives h hv hreceives hne, stretch, hstretch, hchain, hmixes⟩

/-- What stands between a node that comes out and the place in which it does has given way. -/
lemma givesWay_of_surfaces {path : List Nat} {start : Int} {node : Node} {visit above : Visit}
    (ha : above ∈ node.visits path start)
    (h : visit.Surfaces config window (node.visits path start)) (hpath : above.path <+: visit.path)
    (hne : above.path ≠ visit.path) : above.GivesWay config window := by
  obtain ⟨isolated, hsplice⟩ := Treatment.isSplice_iff.mp (h above ha hpath hne)
  obtain ⟨⟨hseen, hcut⟩, hpolicy⟩ := splices_of_treatment hsplice
  rw [← (visit_bounds ha).2.1] at hseen hcut
  exact ⟨hseen, hcut, hpolicy⟩

/-- An unwrapped block that is a child of the receiving node has an edge there, so nothing links its
characters with others. -/
lemma not_links_of_child {receiver : Visit} {seat : Seat}
    (hseat : seat ∈ Child.seats 0 receiver.span.start receiver.node.children)
    (hkind : seat.node.kind.isBlock = true)
    (hgives : Visit.GivesWay config window
      ⟨receiver.path ++ [seat.index], seat.node, seat.node.spanFrom seat.start⟩)
    {inside : Visit} (hin : inside ∈ seat.node.arrivals config window
      (receiver.path ++ [seat.index]) seat.start) {stretch : List Visit}
    (hm : inside ∈ stretch) :
    ¬receiver.Links config window (receiver.path ++ [seat.index]) stretch := by
  intro hlinks
  obtain ⟨outside, hother, hout, -⟩ := hlinks.outside
  rcases treatment_of_splices ⟨hgives.seen, hgives.cut⟩ hgives.policy with hdrop | hsplice
  · simp [arrivals_of_drop hdrop] at hin
  · rcases hlinks.together seat hseat (by rw [hsplice, hkind]) with hall | hnone
    · exact hout (hall outside hother)
    · exact hnone inside hm (visit_bounds (mem_arrivals.mp hin).1).1

/-- Where characters of an unwrapped block are linked with others, the container of the block gives
way to its content too. -/
lemma container_of_links {node : Node} {receiver block : Visit}
    (hreceiver : receiver ∈ node.visits [] 0) (hblock : block ∈ node.visits [] 0)
    (hkind : block.node.kind.isBlock = true) (hgives : block.GivesWay config window)
    {stretch : List Visit} (hlinks : receiver.Links config window block.path stretch) :
    ∃ container ∈ node.visits [] 0, container.path ≠ [] ∧
      (∃ index, block.path = container.path ++ [index]) ∧ container.GivesWay config window := by
  obtain ⟨inside, hinside, hin, -⟩ := hlinks.inside
  obtain ⟨outside, houtside, hout, -⟩ := hlinks.outside
  obtain ⟨seat, hseat, hv⟩ := List.mem_flatMap.mp (hlinks.adjacent.subset hinside)
  obtain ⟨other, -, hother⟩ := List.mem_flatMap.mp (hlinks.adjacent.subset houtside)
  obtain ⟨hvisit, -, hsurfaces⟩ := mem_arrivals.mp hv
  -- The block stands below the receiving node, since not all that comes out there is in it.
  have hbelow : receiver.path ++ [seat.index] <+: block.path := by
    rcases List.prefix_or_prefix_of_prefix (visit_bounds hvisit).1 hin with h | h
    · exact h
    · rcases List.prefix_concat_iff.mp h with heq | h
      · exact heq ▸ List.prefix_refl _
      · exact absurd ((h.trans (List.prefix_append _ _)).trans
          (visit_bounds (mem_arrivals.mp hother).1).1) hout
  have hseatVisit : ∀ visit ∈ node.visits [] 0, receiver.path ++ [seat.index] <+: visit.path →
      visit ∈ seat.node.visits (receiver.path ++ [seat.index]) seat.start :=
    fun visit hv hpath => mem_visits_seat hseat (mem_visits_of_isPrefix hreceiver hv
      ((List.prefix_append _ _).trans hpath)) hpath
  by_cases hdirect : block.path = receiver.path ++ [seat.index]
  · obtain rfl := eq_of_mem_visits_of_path (hseatVisit block hblock hbelow) hdirect
    exact absurd hlinks (not_links_of_child hseat hkind hgives hv hinside)
  · have hne : block.path ≠ [] := by
      intro hnil
      simp [hnil] at hbelow
    obtain ⟨container, hcontainer, index, hindex⟩ := exists_container hblock hne
    rw [hindex] at hin hbelow hdirect
    have habove : receiver.path ++ [seat.index] <+: container.path :=
      (List.prefix_concat_iff.mp hbelow).resolve_left (Ne.symm hdirect)
    refine ⟨container, hcontainer, ?_, ⟨index, hindex⟩,
      givesWay_of_surfaces (hseatVisit container hcontainer habove) hsurfaces
        ((List.prefix_append _ _).trans hin) ?_⟩
    · intro hnil
      simp [hnil] at habove
    · intro heq
      rw [← heq] at hin
      exact Seat.not_isPrefix hin

/-- Text of an unwrapped block stays apart from all other text of the excerpt, unless the block's
container gives way to its content as well, into a node in which only text leaves come out between
characters of the block and characters from elsewhere. -/
theorem staysApart_iff (hjoin : config.text.mergeAdjacentText = true) {node : Node} {number : Nat}
    {range : Range} {step : Step} (hstep : step ∈ (node.walk number {}).1)
    (hkind : step.node.kind.isBlock = true)
    (hgives : step.visit.GivesWay config (range.window node)) :
    ∃ excerpt, (node.excerpt config number range {}).1 = .ok excerpt ∧
      excerpt.node = (node.remnant? config (range.window node)).map Remnant.toNode ∧
      ∀ remnant ∈ node.remnant? config (range.window node),
        remnant.StaysApart step.path ↔
          ¬((∃ container ∈ (node.walk number {}).1, container.path ≠ [] ∧
              (∃ index, step.path = container.path ++ [index]) ∧
              container.visit.GivesWay config (range.window node)) ∧
            node.Bridged config (range.window node) step.path) := by
  have hblock : step.visit ∈ node.visits [] 0 := by
    rw [← walk_fresh number node]
    exact List.mem_map_of_mem hstep
  have hstop := (visit_bounds hblock).2.2.2
  have hlt := Range.start_lt_stopWithin_of_seen (by simpa using hstop) hgives.seen
  refine ⟨_, excerpt_fresh config number range node, ?_, ?_⟩
  · rw [node_excerptAlone hlt, tree?_outcome hjoin]
    rfl
  intro remnant hremnant
  constructor
  · rintro hapart ⟨-, hbridged⟩
    exact Remnant.staysApart_iff_not_bridged.mp hapart ((bridged_iff hjoin hremnant).mpr hbridged)
  · intro hnot
    rw [Remnant.staysApart_iff_not_bridged, bridged_iff hjoin hremnant]
    rintro ⟨receiver, hreceiver, hreceives, stretch, hlinks⟩
    obtain ⟨container, hcontainer, hne, hindex, hcgives⟩ :=
      container_of_links hreceiver hblock hkind hgives hlinks
    rw [← walk_fresh number node] at hcontainer
    obtain ⟨above, habove, rfl⟩ := List.mem_map.mp hcontainer
    exact hnot ⟨⟨above, habove, hne, hindex, hcgives⟩,
      receiver, hreceiver, hreceives, stretch, hlinks⟩

/-- Two paragraphs in a quotation. -/
def quotation : Node :=
  wrapperOf "root" [wrapperOf "blockquote" [wrapperOf "paragraph" [leafOf "text" "ab"],
    wrapperOf "paragraph" [leafOf "text" "cdef"]]]

/-- A range over the edge between the two paragraphs. -/
def middle : Range := ⟨1, some 4, by decide⟩

/-- The step of a walk to the first paragraph. -/
def paragraphStep : Step := (quotation.walk 0 {}).1.get ⟨2, by decide⟩

/-- Policies that unwrap every block, and policies that unwrap paragraphs only. -/
def unwrapping : Config := { behavior := { block := .unwrap } }

def unwrappingParagraphs : Config := { behavior := { overrides := [.block .paragraph .unwrap] } }

lemma paragraphStep_mem : paragraphStep ∈ (quotation.walk 0 {}).1 := List.get_mem _ _

/-- In a quotation that stays, the text of an unwrapped paragraph stays apart. -/
theorem quotation_staysApart :
    paragraphStep ∈ (quotation.walk 0 {}).1 ∧ paragraphStep.node.kind.isBlock = true ∧
      paragraphStep.visit.GivesWay unwrappingParagraphs (middle.window quotation) ∧
      ∃ excerpt, (quotation.excerpt unwrappingParagraphs 0 middle {}).1 = .ok excerpt ∧
        excerpt.node =
          (quotation.remnant? unwrappingParagraphs (middle.window quotation)).map
            Remnant.toNode ∧
        ∀ remnant ∈ quotation.remnant? unwrappingParagraphs (middle.window quotation),
          remnant.StaysApart paragraphStep.path := by
  have hgives : paragraphStep.visit.GivesWay unwrappingParagraphs (middle.window quotation) :=
    ⟨by decide, by decide, by decide⟩
  refine ⟨paragraphStep_mem, by decide, hgives, ?_⟩
  obtain ⟨excerpt, hexcerpt, hnode, hiff⟩ :=
    staysApart_iff (by rfl) paragraphStep_mem (by decide) hgives
  refine ⟨excerpt, hexcerpt, hnode, fun remnant hremnant => (hiff remnant hremnant).mpr ?_⟩
  rintro ⟨⟨container, hcontainer, -, ⟨index, hindex⟩, -, -, hpolicy⟩, -⟩
  have hlength := congrArg List.length hindex
  rw [List.length_append, List.length_singleton] at hlength
  have hstays : ∀ container ∈ (quotation.walk 0 {}).1,
      paragraphStep.path.length = container.path.length + 1 →
        unwrappingParagraphs.splices container.visit.node.kind = false := by decide
  simp [hstays container hcontainer hlength] at hpolicy

/-- Where the quotation is unwrapped as well, text of two unwrapped paragraphs becomes one leaf. -/
theorem quotation_mixes :
    paragraphStep ∈ (quotation.walk 0 {}).1 ∧ paragraphStep.node.kind.isBlock = true ∧
      paragraphStep.visit.GivesWay unwrapping (middle.window quotation) ∧
      ∃ excerpt, (quotation.excerpt unwrapping 0 middle {}).1 = .ok excerpt ∧
        excerpt.node = some (wrapperOf "root" [leafOf "text" "bcd"]) ∧
        ∃ remnant ∈ quotation.remnant? unwrapping (middle.window quotation),
          remnant.toNode = wrapperOf "root" [leafOf "text" "bcd"] ∧
          ¬remnant.StaysApart paragraphStep.path := by
  have htree : (quotation.excerptAlone unwrapping middle).node =
      some (wrapperOf "root" [leafOf "text" "bcd"]) := by rfl
  refine ⟨paragraphStep_mem, by decide, ⟨by decide, by decide, by decide⟩, _,
    excerpt_fresh unwrapping 0 middle quotation, htree,
    (quotation.remnant? unwrapping (middle.window quotation)).get (by decide),
    Option.get_mem _, by rfl, ?_⟩
  unfold Remnant.StaysApart Remnant.Mixes
  decide

end Node
end MarkdownExcerpt

import RubyInfer.Proofs.Session.Reachable
import RubyInfer.Proofs.Session.Reentry

/-!
# How arguments reach parameters

A `Deal` says which parameter takes which argument and which keyword, and `Deal.bind` carries it
out. Binding the parameters of a function does what a fair deal says: each argument goes to one
place, in order, and each keyword to one parameter of its name or to none (`arguments_delivered`).
The names of parameters are read while default values are being inferred, which may load further
files; so this rests on the fact that trees keep their numbers.
-/

namespace RubyInfer

/-! ## Taking a keyword -/

theorem takeKeyword?_eq_none {name : String} {keywords : List (String × Ty)}
    (missed : takeKeyword? name keywords = none) :
    ∀ e ∈ keywords, e.1 ≠ name := by
  induction keywords with
  | nil => exact fun _ mem => nomatch mem
  | cons e keywords ih =>
    unfold takeKeyword? at missed
    split at missed
    · cases missed
    · rename_i other
      exact List.forall_mem_cons.mpr ⟨other, ih (Option.map_eq_none_iff.mp missed)⟩

theorem takeKeyword?_eq_some {name : String} {keywords rest : List (String × Ty)} {ty : Ty}
    (taken : takeKeyword? name keywords = some (ty, rest)) :
    ((name, ty) :: rest).Perm keywords ∧ rest.Sublist keywords := by
  induction keywords generalizing rest with
  | nil => cases taken
  | cons e keywords ih =>
    unfold takeKeyword? at taken
    split at taken
    · rename_i here
      cases taken
      exact ⟨here ▸ .rfl, List.sublist_cons_self e keywords⟩
    · obtain ⟨⟨found, left⟩, inner, same⟩ := Option.map_eq_some_iff.mp taken
      cases same
      obtain ⟨perm, sublist⟩ := ih inner
      exact ⟨(List.Perm.swap ..).trans (perm.cons e), sublist.cons_cons e⟩

namespace Analysis

open Session

variable {s t : Session} {visit other : Visit} {room : Room} {node : NodeRef} {names : NodeId → Option String}

/-! ## Deals -/

inductive Source
  | argument (ty : Ty)
  | keyword (name : String) (ty : Ty)
  | missing

namespace Source

def ty? : Source → Option Ty
  | .argument ty => some ty
  | .keyword _ ty => some ty
  | .missing => none

def argument? : Source → Option Ty
  | .argument ty => some ty
  | _ => none

def keyword? : Source → Option (String × Ty)
  | .keyword name ty => some (name, ty)
  | _ => none

end Source

structure Place where
  id : NodeId
  default : Option NodeId
  source : Source

structure Deal where
  positional : List Place
  rest : List Ty
  afterRest : List (NodeId × Option Ty)
  unclaimed : List (String × Ty)

def handOut : List NodeId → List Ty → List (NodeId × Option Ty)
  | [], _ => []
  | id :: ids, args => (id, args.head?) :: handOut ids args.tail

section Program

variable {m : Type → Type} [Monad m] [MonadStateOf Session m]

def Place.bind (visit : VisitIn m) (node : NodeRef) (frame : ScopeId) (place : Place) : m Unit := do
  let fallback ← match place.default with
    | some d => visit (node.sibling d) frame
    | none => pure .unknown
  bindParam visit (node.sibling place.id) (place.source.ty?.getD fallback) frame

def Deal.bind (visit : VisitIn m) (node : NodeRef) (params : Params NodeId) (call : CallArgs)
    (frame : ScopeId) (deal : Deal) :
    m Unit := do
  deal.positional.forM (Place.bind visit node frame)
  deal.afterRest.forM fun e => bindParam visit (node.sibling e.1) (e.2.getD .unknown) frame
  params.rest.forM fun id => bindParam visit (node.sibling id) (restList deal.rest call.star) frame
  params.restKw.forM fun id =>
    bindParam visit (node.sibling id) (.dict (.symbol none) (.makeUnion (deal.unclaimed.map Prod.snd))) frame
  params.blockArg.forM fun id => bindParam visit (node.sibling id) (call.block.getD .unknown) frame
  call.block.forM fun block => modify fun s =>
    (s.bind frame .object blockName node (s.span node) .scope block).2

end Program

namespace Deal

/-- The arguments that reach a parameter: the positional ones, the rest parameter if there is one,
and those after it. -/
def received (deal : Deal) (params : Params NodeId) : List Ty :=
  deal.positional.filterMap (·.source.argument?) ++
    (if params.rest.isSome then deal.rest else []) ++ deal.afterRest.filterMap Prod.snd

def claimed (deal : Deal) : List (String × Ty) := deal.positional.filterMap (·.source.keyword?)

/-- Nothing is dealt twice, nothing is held back, and everything goes where it belongs. -/
structure Fair (names : NodeId → Option String) (params : Params NodeId) (call : CallArgs)
    (deal : Deal) : Prop where
  defaults : deal.positional.map Place.default =
    List.replicate (params.positional.length - params.defaults.length) none ++
      (params.defaults.take params.positional.length).map some
  front : deal.positional.map (fun place => (place.id, place.source.argument?)) =
      handOut params.positional call.positional
  spare : deal.rest.length = call.positional.length - (params.positional.length + params.afterRest.length)
  back : deal.afterRest = handOut params.afterRest
      (call.positional.drop (params.positional.length + deal.rest.length))
  received : deal.received params = call.positional ↔
    params.rest.isSome ∨ call.positional.length ≤ params.positional.length + params.afterRest.length
  keywords : (deal.claimed ++ deal.unclaimed).Perm call.keywords
  order : deal.unclaimed.Sublist call.keywords
  named : ∀ place ∈ deal.positional, ∀ keyword ∈ place.source.keyword?, names place.id = some keyword.1
  missing : ∀ place ∈ deal.positional, place.source = .missing → ∀ keyword ∈ deal.unclaimed,
      names place.id ≠ some keyword.1

end Deal

/-! ## Positional parameters -/

structure Takes (name : Option String) (supply : Supply) (source : Source) (left : Supply) : Prop where
  argument : source.argument? = supply.args.head?
  args : left.args = supply.args.tail
  keywords : (source.keyword?.toList ++ left.keywords).Perm supply.keywords
  order : left.keywords.Sublist supply.keywords
  named : ∀ keyword ∈ source.keyword?, name = some keyword.1
  missing : source = .missing → ∀ keyword ∈ left.keywords, name ≠ some keyword.1

theorem Supply.takes_next (supply : Supply) (name : Option String) :
    ∃ source left, supply.next name = (source.ty?, left) ∧ Takes name supply source left := by
  obtain ⟨args, keywords⟩ := supply
  cases args with
  | cons ty args => exact ⟨.argument ty, ⟨args, keywords⟩, rfl, rfl, rfl, .rfl, .refl _, nofun, nofun⟩
  | nil =>
    unfold Supply.next
    dsimp only
    split
    · rename_i ty rest taken
      obtain ⟨text, rfl, taken⟩ := Option.bind_eq_some_iff.mp taken
      obtain ⟨perm, sublist⟩ := takeKeyword?_eq_some taken
      refine ⟨.keyword text ty, ⟨[], rest⟩, rfl, rfl, rfl, perm, sublist, fun keyword same => ?_, nofun⟩
      cases same
      rfl
    · rename_i missed
      refine ⟨.missing, ⟨[], keywords⟩, rfl, rfl, rfl, .rfl, .refl _, nofun, fun _ keyword mem same => ?_⟩
      subst same
      exact takeKeyword?_eq_none missed keyword mem rfl

structure Fills (names : NodeId → Option String) (params : List (NodeId × Option NodeId))
    (supply : Supply) (places : List Place) (left : Supply) : Prop where
  parameters : places.map (fun place => (place.id, place.default)) = params
  arguments : places.map (fun place => (place.id, place.source.argument?)) =
      handOut (params.map Prod.fst) supply.args
  args : left.args = supply.args.drop params.length
  keywords : (places.filterMap (·.source.keyword?) ++ left.keywords).Perm supply.keywords
  order : left.keywords.Sublist supply.keywords
  named : ∀ place ∈ places, ∀ keyword ∈ place.source.keyword?, names place.id = some keyword.1
  missing : ∀ place ∈ places, place.source = .missing → ∀ keyword ∈ left.keywords,
      names place.id ≠ some keyword.1

namespace Fills

variable {params : List (NodeId × Option NodeId)} {supply next left : Supply} {places : List Place}

theorem nil (supply : Supply) : Fills names [] supply [] supply where
  parameters := rfl
  arguments := rfl
  args := rfl
  keywords := .rfl
  order := .refl _
  named _ mem := nomatch mem
  missing _ mem := nomatch mem

theorem cons {id : NodeId} {default : Option NodeId} {source : Source}
    (takes : Takes (names id) supply source next) (fills : Fills names params next places left) :
    Fills names ((id, default) :: params) supply (⟨id, default, source⟩ :: places) left where
  parameters := congrArg ((id, default) :: ·) fills.parameters
  arguments := by
    rw [List.map_cons, fills.arguments, takes.argument, takes.args]
    rfl
  args := by rw [fills.args, takes.args, List.drop_tail, List.length_cons]
  keywords := by
    have claims : (Place.mk id default source :: places).filterMap (·.source.keyword?) =
        source.keyword?.toList ++ places.filterMap (·.source.keyword?) := by
      cases source <;> rfl
    rw [claims, List.append_assoc]
    exact (fills.keywords.append_left _).trans takes.keywords
  order := fills.order.trans takes.order
  named := List.forall_mem_cons.mpr ⟨takes.named, fills.named⟩
  missing := List.forall_mem_cons.mpr
      ⟨fun none keyword mem => takes.missing none keyword (fills.order.subset mem), fills.missing⟩

end Fills

/-! ## Names stay -/

theorem nameOf?_after (rooted : node.tree < s.cache.trees.size)
    (trees : s.cache.trees.toList <+: t.cache.trees.toList) (id : NodeId) :
    t.nameOf? (node.sibling id) = s.nameOf? (node.sibling id) := by
  have same : t.tree (node.sibling id) = s.tree (node.sibling id) := tree_retained trees rooted
  unfold nameOf?
  rw [same]

theorem placeBind_does (follows : Follows .any room visit other) (ready : Ready .any room s)
    (node : NodeRef) (frame : ScopeId)
    (place : Place) : Does .any s (place.bind visit node frame) (place.bind other node frame)
      fun _ _ => True := by
  have there (t : Session) : t.HasScope .any frame := fun asked => asked.elim
  unfold Place.bind
  dsimp only
  split
  · exact .bind (follows _ ready (there s)) fun _ t run _ =>
    bindParam_does follows _ trivial (ready.after run) (there t)
  · exact bindParam_does follows _ trivial ready (there s)

/-! ## Dealing -/

theorem bindPositional_fills (follows : Follows .any room visit other)
    (rooted : node.tree < s.cache.trees.size) (frame : ScopeId)
    (params : List (NodeId × Option NodeId)) (supply : Supply) (ready : Ready .any room t)
    (trees : s.cache.trees.toList <+: t.cache.trees.toList) :
    ∃ places left, Fills (fun id => s.nameOf? (node.sibling id)) params supply places left ∧
      (bindPositional visit node frame params supply).run t =
        (left, ((places.forM (Place.bind visit node frame)).run t).2) := by
  induction params generalizing t supply with
  | nil => exact ⟨[], supply, .nil supply, rfl⟩
  | cons param params ih =>
    obtain ⟨id, default⟩ := param
    obtain ⟨source, next, given, takes⟩ := supply.takes_next (s.nameOf? (node.sibling id))
    -- The other parameters are bound where the binding of this one ends.
    obtain ⟨-, run, -⟩ := placeBind_does follows ready node frame ⟨id, default, source⟩
    obtain ⟨places, left, fills, bound⟩ := ih next (ready.after run) (trees.trans run.retains.trees)
    refine ⟨⟨id, default, source⟩ :: places, left, fills.cons takes, ?_⟩
    have first : (bindPositional visit node frame ((id, default) :: params) supply).run t =
        ((Place.mk id default source).bind visit node frame >>= fun _ =>
          bindPositional visit node frame params next).run t := by
      rw [bindPositional, run_get, nameOf?_after rooted trees, given]
      cases default <;> rfl
    rw [first]
    exact bound

theorem bindEach_eq {m : Type → Type} [Monad m] [MonadStateOf Session m] (visit : VisitIn m)
    (node : NodeRef) (frame : ScopeId) (ids : List NodeId) (args : List Ty) :
    bindEach visit node frame ids args =
      (handOut ids args).forM fun e => bindParam visit (node.sibling e.1) (e.2.getD .unknown) frame := by
  induction ids generalizing args with
  | nil => rfl
  | cons id ids ih =>
    unfold bindEach
    rw [List.headD_eq_head?_getD, ih]
    rfl

def dealLeft (params : Params NodeId) (places : List Place) (left : Supply) : Deal where
  positional := places
  rest := left.args.take (left.args.length - params.afterRest.length)
  afterRest := handOut params.afterRest (left.args.drop (left.args.length - params.afterRest.length))
  unclaimed := left.keywords

theorem bindParams_deals (follows : Follows .any room visit other) (ready : Ready .any room s)
    (rooted : node.tree < s.cache.trees.size)
    (params : Params NodeId) (call : CallArgs) (frame : ScopeId) :
    ∃ places left,
      Fills (fun id => s.nameOf? (node.sibling id)) (withDefaults params)
        ⟨call.positional, call.keywords⟩ places left ∧
      (bindParams visit node params call frame).run s =
        ((dealLeft params places left).bind visit node params call frame).run s := by
  obtain ⟨places, left, fills, bound⟩ :=
    bindPositional_fills follows rooted frame (withDefaults params) ⟨call.positional, call.keywords⟩
      ready List.prefix_rfl
  refine ⟨places, left, fills, ?_⟩
  have dealt : (places.forM (Place.bind visit node frame)).run s =
      (⟨⟩, ((places.forM (Place.bind visit node frame)).run s).2) := rfl
  unfold bindParams Deal.bind dealLeft
  rw [run_bind bound, run_bind dealt]
  simp only [bindEach_eq]

/-! ## Fairness -/

theorem map_fst_withDefaults (params : Params NodeId) :
    (withDefaults params).map Prod.fst = params.positional := by
  unfold withDefaults
  rw [List.map_map]
  exact List.zipIdx_map_fst 0 params.positional

theorem map_snd_withDefaults (params : Params NodeId) :
    (withDefaults params).map Prod.snd =
      List.replicate (params.positional.length - params.defaults.length) none ++
        (params.defaults.take params.positional.length).map some := by
  unfold withDefaults
  refine List.ext_getElem (by simp) fun i inside inside' => ?_
  simp only [List.length_map, List.length_zipIdx] at inside
  simp only [List.map_map, List.getElem_map, List.getElem_zipIdx, Function.comp_apply, Nat.zero_add,
    List.getElem_append,
    List.length_replicate, List.getElem_replicate, List.getElem_take]
  split
  · rw [dif_neg (by omega), List.getElem?_eq_getElem]
  · rw [dif_pos (by omega)]

theorem filterMap_handOut (ids : List NodeId) (args : List Ty) :
    (handOut ids args).filterMap Prod.snd = args.take ids.length := by
  induction ids generalizing args with
  | nil => rfl
  | cons id ids ih => cases args <;> simp [handOut, ih]

section Fairness

variable {params : Params NodeId} {call : CallArgs} {places : List Place} {left : Supply}

theorem length_rest :
    (dealLeft params places left).rest.length = left.args.length - params.afterRest.length := by
  simp [dealLeft]

section

variable (fills : Fills names (withDefaults params) ⟨call.positional, call.keywords⟩ places left)
include fills

theorem Fills.args_left : left.args = call.positional.drop params.positional.length := by
  rw [fills.args, ← map_fst_withDefaults params, List.length_map]

theorem dealLeft_whole :
    places.filterMap (·.source.argument?) ++ (dealLeft params places left).rest ++
      (dealLeft params places left).afterRest.filterMap Prod.snd = call.positional := by
  have front : places.filterMap (·.source.argument?) = call.positional.take params.positional.length := by
    rw [← map_fst_withDefaults params, ← filterMap_handOut, ← fills.arguments, List.filterMap_map]
    rfl
  have back : (dealLeft params places left).afterRest.filterMap Prod.snd =
      left.args.drop (left.args.length - params.afterRest.length) := by
    rw [dealLeft, filterMap_handOut]
    exact List.take_of_length_le (by rw [List.length_drop]; omega)
  rw [front, back, List.append_assoc, dealLeft, List.take_append_drop, fills.args_left, List.take_append_drop]

theorem dealLeft_fair : (dealLeft params places left).Fair names params call := by
  have front := fills.arguments
  have defaults := map_snd_withDefaults params
  rw [map_fst_withDefaults] at front
  rw [← fills.parameters, List.map_map] at defaults
  have spare : (dealLeft params places left).rest.length =
      call.positional.length - (params.positional.length + params.afterRest.length) := by
    rw [length_rest, fills.args_left, List.length_drop]
    omega
  have back : (dealLeft params places left).afterRest =
      handOut params.afterRest (call.positional.drop
        (params.positional.length + (dealLeft params places left).rest.length)) := by
    rw [length_rest, ← List.drop_drop, ← fills.args_left]
    rfl
  refine ⟨defaults, front, spare, back, ?_, fills.keywords, fills.order, fills.named, fills.missing⟩
  -- Only what is for the rest parameter can be lost.
  have kept : (dealLeft params places left).rest = [] ↔
      call.positional.length ≤ params.positional.length + params.afterRest.length := by
    rw [← List.length_eq_zero_iff, spare]
    omega
  rw [← kept, Deal.received]
  conv => lhs; rhs; rw [← dealLeft_whole fills]
  cases params.rest <;> simp [dealLeft]

end

end Fairness

/-- **Every argument is delivered once.** Whatever the parameters and whatever the call, binding the
parameters of a node comes to the same as carrying out a fair deal. So the default values that are
read are there; the arguments of the call go to the positional parameters, to the rest parameter and
to those after it, in this order and each to one place, and none is lost unless there is no rest
parameter and there are too many; and a keyword is taken by one positional parameter of its name
that has no argument, or else it is among those for the keyword-rest parameter. -/
theorem arguments_delivered {levels : Nat} (left : levels = s.options.maxDepth - s.depth) {node : NodeRef}
    (rooted : node.tree < s.cache.trees.size) (params : Params NodeId) (call : CallArgs) (frame : ScopeId) :
    ∃ deal : Deal, deal.Fair (fun id => s.nameOf? (node.sibling id)) params call ∧
      (bindParams (infer levels) node params call frame).run s =
        (deal.bind (infer levels) node params call frame).run s := by
  subst left
  obtain ⟨places, rest, fills, bound⟩ :=
    bindParams_deals (infer_follows .any s (fun _ => True) (fun _ _ => trivial) trivial _)
      (ready_self s.sound_any) rooted params call frame
  exact ⟨dealLeft params places rest, dealLeft_fair fills, bound⟩

theorem arguments_delivered_keyword :
    let s := afterRecursiveDefault
    let call : CallArgs := { keywords := [("y", .bool), ("x", .num)] }
    s.kind (s.function 0).node = .function (some 0) { positional := [1], defaults := [3] }
      (some 5) false none ∧
      ∃ deal : Deal, (deal.claimed ++ deal.unclaimed).Perm [("y", .bool), ("x", .num)] ∧
      deal.received { positional := [1] } = [] ∧
        (bindParams (infer 3) (s.function 0).node { positional := [1], defaults := [3] } call
          Scopes.global).run s =
          (deal.bind (infer 3) (s.function 0).node { positional := [1], defaults := [3] } call
            Scopes.global).run s := by
  obtain ⟨-, -, -, left⟩ := granted_recursiveDefault
  have rooted : (afterRecursiveDefault.function 0).node.tree < afterRecursiveDefault.cache.trees.size :=
    lt_size_of_kind (by simp [written_recursiveDefault])
  obtain ⟨deal, fair, bound⟩ := arguments_delivered left rooted { positional := [1], defaults := [3] }
    { keywords := [("y", .bool), ("x", .num)] } Scopes.global
  exact ⟨written_recursiveDefault, deal, fair.keywords, fair.received.mpr (.inr (Nat.zero_le _)), bound⟩

end Analysis

end RubyInfer

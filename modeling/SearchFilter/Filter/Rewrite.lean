import SearchFilter.Filter.Basic

namespace SearchFilter.Filter

mutual

/-- The nodes of a filter, the clauses of each from left to right before the node itself. -/
def visits : Filter → List Filter
  | leaf a => [leaf a]
  | negation f => visits f ++ [negation f]
  | junction c fs => visitsAll fs ++ [junction c fs]

/-- The nodes of a list of filters. -/
def visitsAll : List Filter → List Filter
  | [] => []
  | f :: fs => visits f ++ visitsAll fs

end

mutual

/-- How many levels a filter has. A leaf is one level. -/
def depth : Filter → Nat
  | leaf _ => 1
  | negation f => depth f + 1
  | junction _ fs => depthAll fs + 1

/-- The depth of the deepest of some filters. -/
def depthAll : List Filter → Nat
  | [] => 0
  | f :: fs => max (depth f) (depthAll fs)

end

mutual

/-- Rewrites a filter from the leaves up with `g`, which sees each node after its clauses were
rewritten and gives what replaces it, or nothing to prune it. Gives the result and the nodes that
`g` saw, in order. -/
def rewriteTrace (g : Filter → Option Filter) : Filter → Option Filter × List Filter
  | leaf a => (g (leaf a), [leaf a])
  | negation f =>
    match rewriteTrace g f with
    | (some f, seen) => (g (negation f), seen ++ [negation f])
    | (none, seen) => (none, seen)
  | junction c fs =>
    match rewriteTraceAll g fs with
    | ([], seen) => (none, seen)
    | (kept, seen) => (g (junction c kept), seen ++ [junction c kept])

/-- Rewrites a list of filters, and leaves out those that are pruned. -/
def rewriteTraceAll (g : Filter → Option Filter) : List Filter → List Filter × List Filter
  | [] => ([], [])
  | f :: fs =>
    let (kept, seen) := rewriteTrace g f
    let (others, more) := rewriteTraceAll g fs
    (kept.toList ++ others, seen ++ more)

end

/-- The filter that rewriting with `g` gives, or nothing where everything is pruned. A negation
without its filter and a junction without clauses are pruned with what they lost, so no junction is
left that was emptied. -/
def rewrite (g : Filter → Option Filter) (f : Filter) : Option Filter :=
  (rewriteTrace g f).1

end SearchFilter.Filter

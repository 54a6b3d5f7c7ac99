import NodeConfig.Log.Event
import NodeConfig.Metrics

namespace NodeConfig

structure Report where
  events : List Event := []
  counts : Metrics := []
  deriving DecidableEq, Repr

namespace Report

def nothing : Report := {}

def event (e : Event) : Report := ⟨[e], []⟩

def count (c : Counter) : Report := ⟨[], [c]⟩

def append (r s : Report) : Report := ⟨r.events ++ s.events, r.counts ++ s.counts⟩

instance : Append Report := ⟨append⟩

@[simp] theorem events_append (r s : Report) : (r ++ s).events = r.events ++ s.events := rfl

@[simp] theorem counts_append (r s : Report) : (r ++ s).counts = r.counts ++ s.counts := rfl

@[simp] theorem events_nothing : nothing.events = [] := rfl

@[simp] theorem counts_nothing : nothing.counts = [] := rfl

@[simp] theorem events_event (e : Event) : (event e).events = [e] := rfl

@[simp] theorem counts_event (e : Event) : (event e).counts = [] := rfl

@[simp] theorem events_count (c : Counter) : (count c).events = [] := rfl

@[simp] theorem counts_count (c : Counter) : (count c).counts = [c] := rfl

end Report

end NodeConfig

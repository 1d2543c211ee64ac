import PlotSeries.Datum.Direct
import PlotSeries.IndexRange
import PlotSeries.Record.Kinds
import PlotSeries.Squeeze

/-!
# The forms of the library's values

The tables by which records, index ranges, policies and sign domains are written
as structured data. The fields of records and index ranges are required; those of
a policy may be left out, and then have the values of the standard policy.
-/

namespace PlotSeries

namespace StructureForm

/-- The fields of a sample. -/
def sample : StructureForm Sample where
  fields := [⟨"key", .double, Sample.key⟩, ⟨"value", .double, Sample.value⟩]
  standard := none
  make | (key, value, ()) => ⟨key, value⟩
  nodup := by decide
  make_values _ := rfl
  values_make _ := rfl

/-- The fields of a curve point. -/
def curvePoint : StructureForm CurvePoint where
  fields := [⟨"t", .double, CurvePoint.parameter⟩, ⟨"key", .double, CurvePoint.key⟩,
    ⟨"value", .double, CurvePoint.value⟩]
  standard := none
  make | (parameter, key, value, ()) => ⟨parameter, key, value⟩
  nodup := by decide
  make_values _ := rfl
  values_make _ := rfl

/-- The fields of a bar. -/
def bar : StructureForm Bar where
  fields := [⟨"key", .double, Bar.key⟩, ⟨"value", .double, Bar.value⟩]
  standard := none
  make | (key, value, ()) => ⟨key, value⟩
  nodup := by decide
  make_values _ := rfl
  values_make _ := rfl

/-- The fields of a candle. -/
def candle : StructureForm Candle where
  fields := [⟨"key", .double, Candle.key⟩, ⟨"open", .double, Candle.opening⟩,
    ⟨"high", .double, Candle.highest⟩, ⟨"low", .double, Candle.lowest⟩,
    ⟨"close", .double, Candle.closing⟩]
  standard := none
  make | (key, opening, highest, lowest, closing, ()) => ⟨key, opening, highest, lowest, closing⟩
  nodup := by decide
  make_values _ := rfl
  values_make _ := rfl

/-- The fields of a box summary. -/
def boxSummary : StructureForm BoxSummary where
  fields := [⟨"key", .double, BoxSummary.key⟩, ⟨"minimum", .double, BoxSummary.minimum⟩,
    ⟨"lower_quartile", .double, BoxSummary.lowerQuartile⟩,
    ⟨"median", .double, BoxSummary.median⟩,
    ⟨"upper_quartile", .double, BoxSummary.upperQuartile⟩,
    ⟨"maximum", .double, BoxSummary.maximum⟩]
  standard := none
  make
    | (key, minimum, lowerQuartile, median, upperQuartile, maximum, ()) =>
      ⟨key, minimum, lowerQuartile, median, upperQuartile, maximum⟩
  nodup := by decide
  make_values _ := rfl
  values_make _ := rfl

/-- The fields of an index range. -/
def indexRange : StructureForm IndexRange where
  fields := [⟨"begin", .index, IndexRange.start⟩, ⟨"end", .index, IndexRange.stop⟩]
  standard := none
  make | (start, stop, ()) => ⟨start, stop⟩
  nodup := by decide
  make_values _ := rfl
  values_make _ := rfl

/-- The fields of a policy; those left out are those of the policy of a new store. -/
def policy : StructureForm SqueezePolicy where
  fields := [⟨"enabled", .flag, SqueezePolicy.enabled⟩,
    ⟨"min_allocation", .index, SqueezePolicy.minAllocation⟩,
    ⟨"large_allocation", .index, SqueezePolicy.largeAllocation⟩,
    ⟨"small_post_factor", .double, SqueezePolicy.smallTailFactor⟩,
    ⟨"small_pre_factor", .double, SqueezePolicy.smallPoolFactor⟩,
    ⟨"large_post_factor", .double, SqueezePolicy.largeTailFactor⟩,
    ⟨"large_pre_divisor", .double, SqueezePolicy.largePoolDivisor⟩]
  standard := some .standard
  make
    | (enabled, minAllocation, largeAllocation, smallTail, smallPool, largeTail, largePool, ()) =>
      ⟨enabled, minAllocation, largeAllocation, smallTail, smallPool, largeTail, largePool⟩
  nodup := by decide
  make_values _ := rfl
  values_make _ := rfl

end StructureForm

/-- The names of the sign domains. -/
def NameForm.signDomain : NameForm SignDomain where
  name
    | .both => "Both"
    | .negative => "Negative"
    | .positive => "Positive"
  values := [.both, .negative, .positive]
  mem_values a := by cases a <;> decide
  name_inj a b := by cases a <;> cases b <;> decide

instance : Structured Sample := ⟨.fields .sample⟩
instance : Structured CurvePoint := ⟨.fields .curvePoint⟩
instance : Structured Bar := ⟨.fields .bar⟩
instance : Structured Candle := ⟨.fields .candle⟩
instance : Structured BoxSummary := ⟨.fields .boxSummary⟩
instance : Structured IndexRange := ⟨.fields .indexRange⟩
instance : Structured SqueezePolicy := ⟨.fields .policy⟩
instance : Structured SignDomain := ⟨.names .signDomain⟩

end PlotSeries

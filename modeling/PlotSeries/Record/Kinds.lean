import PlotSeries.Record

/-!
# The kinds of plot records

The five records that the charts draw: samples of a line graph, points of a
parametric curve, bars, candles and box summaries. All but the curve points are
sorted by the key they are drawn at; a curve is sorted by its parameter, so its
keys may repeat or run backwards.
-/

namespace PlotSeries

/-! ## Samples -/

/-- One sample of a line graph. -/
structure Sample where
  key : Binary64
  value : Binary64
  deriving DecidableEq, Inhabited

instance : KeyValueRecord Sample where
  sortKey := Sample.key
  ofSortKey key := ⟨key, 0⟩
  mainKey := Sample.key
  mainValue := Sample.value
  valueExtent r := .point r.value
  sortsByMainKey := true
  mainKey_eq_sortKey _ _ := rfl
  ofKeyValue := Sample.mk

instance : Columns Sample where
  row r := [r.key, r.value]
  ofRow?
    | [key, value] => some ⟨key, value⟩
    | _ => none

/-! ## Curve points -/

/-- One point of a parametric curve. -/
structure CurvePoint where
  parameter : Binary64
  key : Binary64
  value : Binary64
  deriving DecidableEq, Inhabited

instance : PlotRecord CurvePoint where
  sortKey := CurvePoint.parameter
  ofSortKey parameter := ⟨parameter, 0, 0⟩
  mainKey := CurvePoint.key
  mainValue := CurvePoint.value
  valueExtent r := .point r.value
  sortsByMainKey := false
  mainKey_eq_sortKey h := nomatch h

instance : Columns CurvePoint where
  row r := [r.parameter, r.key, r.value]
  ofRow?
    | [parameter, key, value] => some ⟨parameter, key, value⟩
    | _ => none

/-! ## Bars -/

/-- One bar of a bar chart. -/
structure Bar where
  key : Binary64
  value : Binary64
  deriving DecidableEq, Inhabited

instance : KeyValueRecord Bar where
  sortKey := Bar.key
  ofSortKey key := ⟨key, 0⟩
  mainKey := Bar.key
  mainValue := Bar.value
  valueExtent r := .point r.value
  sortsByMainKey := true
  mainKey_eq_sortKey _ _ := rfl
  ofKeyValue := Bar.mk

instance : Columns Bar where
  row r := [r.key, r.value]
  ofRow?
    | [key, value] => some ⟨key, value⟩
    | _ => none

/-! ## Candles -/

/-- One sample of a candlestick chart. It is represented by its opening value
and extends from its lowest to its highest value. -/
structure Candle where
  key : Binary64
  opening : Binary64
  highest : Binary64
  lowest : Binary64
  closing : Binary64
  deriving DecidableEq, Inhabited

instance : PlotRecord Candle where
  sortKey := Candle.key
  ofSortKey key := ⟨key, 0, 0, 0, 0⟩
  mainKey := Candle.key
  mainValue := Candle.opening
  valueExtent r := ⟨r.lowest, r.highest⟩
  sortsByMainKey := true
  mainKey_eq_sortKey _ _ := rfl

instance : Columns Candle where
  row r := [r.key, r.opening, r.highest, r.lowest, r.closing]
  ofRow?
    | [key, opening, highest, lowest, closing] => some ⟨key, opening, highest, lowest, closing⟩
    | _ => none

/-! ## Box summaries -/

/-- The five-number summary that a box plot draws. It is represented by its
median and extends from whisker to whisker. -/
structure BoxSummary where
  key : Binary64
  minimum : Binary64
  lowerQuartile : Binary64
  median : Binary64
  upperQuartile : Binary64
  maximum : Binary64
  deriving DecidableEq, Inhabited

instance : PlotRecord BoxSummary where
  sortKey := BoxSummary.key
  ofSortKey key := ⟨key, 0, 0, 0, 0, 0⟩
  mainKey := BoxSummary.key
  mainValue := BoxSummary.median
  valueExtent r := ⟨r.minimum, r.maximum⟩
  sortsByMainKey := true
  mainKey_eq_sortKey _ _ := rfl

instance : Columns BoxSummary where
  row r := [r.key, r.minimum, r.lowerQuartile, r.median, r.upperQuartile, r.maximum]
  ofRow?
    | [key, minimum, lowerQuartile, median, upperQuartile, maximum] =>
      some ⟨key, minimum, lowerQuartile, median, upperQuartile, maximum⟩
    | _ => none

end PlotSeries

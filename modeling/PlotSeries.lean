import PlotSeries.Chart
import PlotSeries.Datum.Forms
import PlotSeries.Proofs.PanicFreedom
import PlotSeries.Proofs.Conservation
import PlotSeries.Proofs.LayoutIndependence
import PlotSeries.Proofs.SortedList
import PlotSeries.Proofs.Bookkeeping
import PlotSeries.Proofs.InsertionOrder
import PlotSeries.Proofs.Rounding
import PlotSeries.Proofs.Thresholds
import PlotSeries.Proofs.StreamingWindow
import PlotSeries.Proofs.SeriesSharing
import PlotSeries.Proofs.Regrowth
import PlotSeries.Proofs.VisibleSpan
import PlotSeries.Proofs.KeyExtents
import PlotSeries.Proofs.KeyWindows
import PlotSeries.Proofs.Editing
import PlotSeries.Proofs.ValueExtents
import PlotSeries.Proofs.PoolGrowth
import PlotSeries.Proofs.Squeezing
import PlotSeries.Proofs.Removals
import PlotSeries.Proofs.Merging
import PlotSeries.Proofs.PrependCost
import PlotSeries.Proofs.LibraryForms
import PlotSeries.Proofs.Searching
import PlotSeries.Proofs.KeyComparison

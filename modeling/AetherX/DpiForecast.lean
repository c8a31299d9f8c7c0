import AetherX.ModelRegistry

/-! The forecast that decides when standbys are warmed and when the transport is changed
before it is lost. The numbers are binary64 values, computed as the code computes them. -/
namespace AetherX.DpiForecast
open ModelRegistry

def epsilon : Float := 2.2204460492503131e-16

def clampUnit (x : Float) : Float :=
  if x<0.0 then 0.0 else if x > 1.0 then 1.0 else x

structure HealthSample where
  successRate : Float
  tcpRstRate : Float
  tlsTruncRate : Float
  dnsAnomalyRate : Float

def HealthSample.pressure (s : HealthSample) : Float :=
  let dpi := maxRate (clampUnit s.tcpRstRate) (clampUnit s.tlsTruncRate)
  let dpiProgress := dpi/dpiSwitchRate
  let loss := 1.0-clampUnit s.successRate
  let lossBudget := maxRate (1.0-defaultSwitchThreshold) epsilon
  let lossProgress := loss/lossBudget
  let dnsProgress := clampUnit s.dnsAnomalyRate/dnsEscalateRate
  clampUnit (maxRate (maxRate dpiProgress lossProgress) dnsProgress)

inductive Forecast where
  | stable
  | rising
  | prewarmAdvised
  | switchAdvised
  deriving DecidableEq

structure ForecastReport where
  forecast : Forecast
  hazard : Float
  pressure : Float
  trend : Float
  samples : Nat

def ForecastReport.unknown : ForecastReport := ⟨.stable,0.0,0.0,0.0,0⟩

def prewarmHazard : Float := 0.45
def switchHazard : Float := 0.75
def minSamples : Nat := 4
def alpha : Float := 0.4
def historyLimit : Nat := 16
def projectionTicks : Float := 8.0

structure DpiForecaster where
  history : List Float
  smoothed : Float
  seeded : Bool
  observed : Nat
  prewarmSignals : Nat
  switchSignals : Nat

namespace DpiForecaster
def new : DpiForecaster := ⟨[],0.0,false,0,0,0⟩

def slope (history : List Float) : Float :=
  let n := history.length
  if n<2 then 0.0
  else
    let meanX := (n.toFloat-1.0)/2.0
    let meanY := history.foldl (· + ·) 0.0/n.toFloat
    let (num, den) := history.zipIdx.foldl (fun (num, den) (y, i) =>
      let dx := i.toFloat-meanX
      (num+dx*(y-meanY), den+dx*dx)) (0.0, 0.0)
    if den ≤ epsilon then 0.0 else num/den

def hazardOf (smoothed trend : Float) : Float :=
  let projected := smoothed+trend*projectionTicks
  let levelTerm := 0.55*clampUnit smoothed
  let projectionTerm := 0.45*clampUnit projected
  clampUnit (levelTerm+projectionTerm)

/- What the forecaster says of the pressures it holds, after a sample and between samples. -/
def report (f : DpiForecaster) : ForecastReport :=
  let samples := f.history.length
  let trend := slope f.history
  let hazard := hazardOf f.smoothed trend
  let forecast :=
    if samples < minSamples then .stable
    else if hazard ≥ switchHazard then .switchAdvised
    else if hazard ≥ prewarmHazard then .prewarmAdvised
    else if trend > 0.0 ∧ f.smoothed > 0.05 then .rising
    else .stable
  ⟨forecast,hazard,f.smoothed,trend,samples⟩

def fold (f : DpiForecaster) (p : Float) : DpiForecaster :=
  { f with
    smoothed := if f.seeded then alpha*p+(1.0-alpha)*f.smoothed else p
    seeded := true
    history := (if f.history.length=historyLimit then f.history.drop 1 else f.history)++[p]
    observed := f.observed+1 }

def signal (f : DpiForecaster) : Forecast → DpiForecaster
  | .switchAdvised =>
    { f with switchSignals := f.switchSignals+1, prewarmSignals := f.prewarmSignals+1 }
  | .prewarmAdvised => { f with prewarmSignals := f.prewarmSignals+1 }
  | _ => f

def observe (f : DpiForecaster) (sample : HealthSample) : DpiForecaster × ForecastReport :=
  let f := f.fold sample.pressure
  (f.signal f.report.forecast, f.report)

def current (f : DpiForecaster) : ForecastReport :=
  if f.history.length=0 then .unknown else f.report

def reset (f : DpiForecaster) : DpiForecaster :=
  { f with history := [], smoothed := 0.0, seeded := false }

end DpiForecaster

end AetherX.DpiForecast
